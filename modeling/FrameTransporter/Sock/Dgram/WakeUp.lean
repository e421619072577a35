import FrameTransporter.Sock.Dgram.Run

/-! # A datagram socket wakes up to write

While frames wait to be sent, the write watcher is to be active. A write event
takes the wish to write back before it sends, so each way out of the send loop has
to bring it back. The one that does not is the loss of a frame on an unconnected
socket, which is harmless for the last frame of the queue only.
-/

namespace FrameTransporter

open Hoare Intrusive

namespace Dgram

open ReadEvent WriteEvent

variable {π : Type}

/-- A socket with frames to write waits for a write event, unless it is shut down. -/
def Waits (s : Dgram) : Prop :=
  s.writeFrames ≠ none → s.shutdown = false →
    WRITE_WANT_WRITE ∈ s.writeEvents ∧ s.writeWatcher = true

/-- A socket that was shut down stays so. -/
def Shut (s s' : Dgram) : Prop := s.shutdown = true → s'.shutdown = true

instance : IsPreorder Dgram Shut where
  refl _ := id
  trans _ _ _ h h' := h' ∘ h

/-- A change of the socket that leaves its write queue alone and forgets no wish to write. -/
structure Aside (s s' : Dgram) : Prop where
  writeFrames : s'.writeFrames = s.writeFrames
  want : WRITE_WANT_WRITE ∈ s.writeEvents → WRITE_WANT_WRITE ∈ s'.writeEvents
  watcher : s.writeWatcher = true → s'.writeWatcher = true
  shutdown : Shut s s'

/-- A condition on the socket that holds while it waits, and is no business of the read side. -/
structure Lasting (J : Dgram → Prop) : Prop where
  aside : ∀ s s', Aside s s' → J s → J s'
  of_waits : ∀ s, Waits s → J s

theorem Aside.waits {s s' : Dgram} (h : Aside s s') (hs : Waits s) : Waits s' := by
  intro hf hd
  have hd : s.shutdown = false := by
    by_contra hc
    simp [h.shutdown (Bool.not_eq_false _ ▸ hc)] at hd
  obtain ⟨hwant, hwatch⟩ := hs (h.writeFrames ▸ hf) hd
  exact ⟨h.want hwant, h.watcher hwatch⟩

theorem lasting_waits : Lasting Waits := ⟨fun _ _ => Aside.waits, fun _ => id⟩

theorem lasting_true : Lasting fun _ => True := ⟨fun _ _ _ => id, fun _ _ => trivial⟩

theorem waits_of_shutdown {s : Dgram} (h : s.shutdown = true) : Waits s := fun _ hs => by
  simp [h] at hs

theorem waits_of_empty {s : Dgram} (h : s.writeFrames = none) : Waits s := fun hf => absurd h hf

section Updates

variable (s : Dgram)

theorem aside_readSetEvent (e : Finset ReadEvent) : Aside s (readSetEvent e s) := by
  rw [readSetEvent_eq]
  exact ⟨rfl, id, id, id⟩

theorem aside_readUnsetEvent (e : Finset ReadEvent) : Aside s (readUnsetEvent e s) := by
  rw [readUnsetEvent_eq]
  exact ⟨rfl, id, id, id⟩

theorem aside_writeSetEvent : Aside s (writeSetEvent {WRITE_WANT_WRITE} s) := by
  rw [writeSetEvent_eq]
  refine ⟨rfl, fun h => Finset.mem_union_left _ h, fun h => ?_, id⟩
  dsimp only
  split
  · rfl
  · exact h

/-- A wish to write starts the watcher. -/
theorem waits_writeSetEvent : Waits (writeSetEvent {WRITE_WANT_WRITE} s) := by
  rw [writeSetEvent_eq]
  refine fun _ _ => ⟨Finset.mem_union_right _ (Finset.mem_singleton_self _), if_pos fun h => ?_⟩
  have hm : WRITE_WANT_WRITE ∈ s.writeEvents ∪ {WRITE_WANT_WRITE} := by simp
  simp [h] at hm

/-- Only a socket without wishes loses its watcher. -/
theorem waits_writeUnsetEvent (h : Waits s)
    (he : s.writeFrames = none ∨ s.writeEvents = ∅) :
    Waits (writeUnsetEvent {WRITE_WANT_WRITE} s) := by
  have hframes : (writeUnsetEvent {WRITE_WANT_WRITE} s).writeFrames = s.writeFrames := by
    rw [writeUnsetEvent_eq]
  have hshut : (writeUnsetEvent {WRITE_WANT_WRITE} s).shutdown = s.shutdown := by
    rw [writeUnsetEvent_eq]
  intro hf hs
  rw [hframes] at hf
  rw [hshut] at hs
  rcases he with he | he
  · exact absurd he hf
  · have hwant := (h hf hs).1
    simp [he] at hwant

theorem shut_awaitWrite : Shut s (awaitWrite s) :=
  (aside_writeSetEvent { s with writeReady := false }).shutdown

theorem shut_writeUnsetEvent : Shut s (writeUnsetEvent {WRITE_WANT_WRITE} s) := by
  rw [writeUnsetEvent_eq]
  exact id

end Updates

/-- On an unconnected socket no frame is lost while another one waits behind it. -/
def Env.LosesLast (env : Env) : Prop :=
  ∀ s x n e, env.sendmsg s x n = .failed e → ¬e.Retryable → s.connect = false → x.next = none

section Functions

variable {env : Env} {d : Delegate π} {J : Dgram → Prop}

/-- Every fault is admitted: a run that stops reaches no further state. -/
abbrev Keeps {α : Type} (J : Dgram → Prop) (m : DgramM π α) : Prop :=
  Preserves (fun _ => True) (OnSocket J) (SocketStep Shut) m

/-- The delegate keeps the condition, and never undoes a shutdown. -/
abbrev Delegate.Keeps (J : Dgram → Prop) (d : Delegate π) : Prop :=
  d.Preserves (fun _ => True) (OnSocket J) (SocketStep Shut)

theorem keeps_aside (hJ : Lasting J) {g : Dgram → Dgram} (hg : ∀ s, Aside s (g s)) :
    Keeps J (modifySocket (π := π) g) :=
  preserves_modifySocket fun s hs => ⟨hJ.aside s (g s) (hg s) hs, (hg s).shutdown⟩

theorem keeps_beside {α : Type} {m : DgramM π α}
    (hm : ∀ w, wp (fun _ => True) m (fun _ w' => w'.socket = w.socket) w) : Keeps J m :=
  preserves_of_socket hm

theorem keeps_giveBack (f : FrameId) (side : Char) : Keeps J (giveBack (π := π) env f side) := by
  refine (keeps_beside fun w => ?_).bind fun _ => keeps_beside fun w => ?_
  · exact (wp_record _).mpr rfl
  · exact frameReturn_socket (fun _ _ => trivial) env.toContext f

theorem keeps_poolBorrow (ctx : Context) (type : FrameType) (file : String) (line : ℕ) :
    Keeps J (poolBorrow (π := π) ctx type file line) :=
  keeps_beside fun _ => poolBorrow_socket ctx type file line

theorem keeps_cntlReadPause (hJ : Lasting J) (on : Bool) :
    Keeps J (cntlReadPause (π := π) on) := by
  refine preserves_getSocket_bind fun w hw => ?_
  cases on with
  | true =>
    refine ((keeps_aside hJ fun s => ?_).bind fun _ => (Preserves.when _ fun _ =>
      keeps_aside hJ fun s => aside_readUnsetEvent s ∅).bind fun _ => preserves_pure _) w hw
    exact ⟨rfl, id, id, id⟩
  | false =>
    refine (Preserves.ite _ (fun _ => preserves_throw trivial) fun _ =>
      (keeps_aside hJ fun s => ?_).bind fun _ => (Preserves.when _ fun _ =>
        keeps_aside hJ fun s => aside_readSetEvent s ∅).bind fun _ => preserves_pure _) w hw
    exact ⟨rfl, id, id, id⟩

theorem keeps_pauseNoframes (hJ : Lasting J) : Keeps J (pauseNoframes (π := π)) := by
  refine (keeps_aside hJ fun s => ?_).bind fun _ =>
    (keeps_cntlReadPause hJ true).bind fun _ => preserves_pure _
  exact ⟨rfl, id, id, id⟩

theorem keeps_deliver {read : FrameId → DgramM π Bool} (hr : ∀ f, Keeps J (read f)) (f : FrameId) :
    Keeps J (deliver read f) := by
  refine (keeps_beside fun w => ?_).bind fun x => (keeps_beside fun w => ?_).bind fun _ =>
    (keeps_beside fun w => ?_).bind fun _ => (hr f).bind fun _ =>
      (keeps_beside fun w => ?_).bind fun _ => preserves_pure _
  · exact (wp_getFrame _).mpr rfl
  · exact (wp_setOwner _ _).mpr rfl
  · exact (wp_record _).mpr rfl
  · exact (wp_record _).mpr rfl

theorem keeps_endOfStreamFrame (hJ : Lasting J) : Keeps J (endOfStreamFrame (π := π) env) := by
  refine preserves_getSocket_bind fun w hw => ?_
  cases w.socket.readFrame with
  | none => exact keeps_poolBorrow _ _ _ _ w hw
  | some f =>
    refine ((keeps_beside fun w => (wp_getFrame f).mpr rfl).bind fun x => Preserves.ite _
      (fun _ => (keeps_aside hJ fun s => ?_).bind fun _ =>
        (keeps_beside fun w => (wp_setFrame f _).mpr rfl).bind fun _ => preserves_pure _)
      fun _ => keeps_poolBorrow _ _ _ _) w hw
    exact ⟨rfl, id, id, id⟩

theorem keeps_uplinkEndOfStream (hJ : Lasting J) (hd : d.Keeps J) :
    Keeps J (uplinkEndOfStream env d) := by
  refine (keeps_endOfStreamFrame hJ).bind fun eos =>
    (keeps_beside fun w => (wp_record _).mpr rfl).bind fun _ => ?_
  cases eos with
  | none => exact keeps_pauseNoframes hJ
  | some f =>
    cases hr : d.read with
    | none => exact preserves_throw trivial
    | some read =>
      exact (keeps_deliver (hd.read read hr) f).bind fun taken => Preserves.ite _
        (fun _ => preserves_pure _) fun _ => keeps_giveBack f 'R'

/-- A shutdown is for good. -/
theorem shutdownReal_wp (hd : d.Keeps fun _ => True) (uplinkEos : Bool) (w : World Dgram π) :
    wp (fun _ => True) (shutdownReal env d uplinkEos) (fun _ w' => w'.socket.shutdown = true)
      w := by
  rw [shutdownReal, wp_bind, cntlReadStop, wp_bind, wp_modifySocket, wp_pure, wp_bind, wp_ask,
    wp_bind, wp_modifySocket, wp_bind, wp_record, wp_when]
  refine ⟨fun _ => ?_, fun _ => rfl⟩
  refine wp_mono (keeps_uplinkEndOfStream lasting_true hd _ trivial) fun _ w' h => ?_
  exact h.2 rfl

/-- An error shuts the socket down. -/
theorem error_wp (hd : d.Keeps fun _ => True) (e : Errno) (w : World Dgram π) :
    wp (fun _ => True) (error env d e) (fun _ w' => w'.socket.shutdown = true) w := by
  rw [error, wp_bind, wp_modifySocket, wp_bind, wp_getSocket, wp_bind, wp_record, wp_bind]
  exact wp_mono (hd.error _ trivial) fun _ w' _ => shutdownReal_wp hd false w'

/-- Afterwards the socket waits if it has to. -/
def Settles (m : DgramM π Unit) : Prop := ∀ w, wp (fun _ => True) m (fun _ w' =>
  Waits w'.socket ∧ Shut w.socket w'.socket) w

theorem settles_of_shutdown {m : DgramM π Unit}
    (h : ∀ w, wp (fun _ => True) m (fun _ w' => w'.socket.shutdown = true) w) : Settles m :=
  fun w => wp_mono (h w) fun _ _ hs => ⟨waits_of_shutdown hs, fun _ => hs⟩

theorem Settles.keeps {m : DgramM π Unit} (hJ : Lasting J) (h : Settles m) : Keeps J m :=
  fun w _ => wp_mono (h w) fun _ _ hs => ⟨hJ.of_waits _ hs.1, hs.2⟩

theorem settles_modifySocket {g : Dgram → Dgram} (hw : ∀ s, Waits (g s))
    (hs : ∀ s, Shut s (g s)) : Settles (modifySocket (π := π) g) :=
  fun w => ⟨hw w.socket, hs w.socket⟩

theorem settles_awaitWrite : Settles (modifySocket (π := π) awaitWrite) := by
  exact settles_modifySocket (fun s => waits_writeSetEvent _) shut_awaitWrite

/-- A frame that leaves the queue is the last one, so nothing waits any more. -/
theorem returnWriteFrame_wp {f : FrameId} {w : World Dgram π} (hn : (w.heap f).next = none) :
    wp (fun _ => True) (returnWriteFrame env f) (fun _ w' =>
      Waits w'.socket ∧ Shut w.socket w'.socket) w := by
  rw [returnWriteFrame, wp_bind, wp_getFrame, wp_bind, wp_modifySocket]
  refine wp_mono (keeps_giveBack (J := Waits) f 'W' _ ?_) fun _ w' h => ⟨h.1, h.2⟩
  exact waits_of_empty hn

/-- A failed send settles, if a lost frame was the last one. -/
theorem sendFailed_wp (hd : d.Keeps fun _ => True) {f : FrameId} {e : Errno} {w : World Dgram π}
    (hn : ¬e.Retryable → w.socket.connect = false → (w.heap f).next = none) :
    wp (fun _ => True) (sendFailed env d f e) (fun _ w' =>
      Waits w'.socket ∧ Shut w.socket w'.socket) w := by
  rw [sendFailed, wp_bind, wp_modifySocket, wp_bind, wp_getSocket, wp_ite]
  refine ⟨fun _ => ?_, fun hr => ?_⟩
  · exact ⟨waits_writeSetEvent _, shut_awaitWrite w.socket⟩
  · rw [wp_ite]
    refine ⟨fun _ => settles_of_shutdown (error_wp hd e) _, fun hc => ?_⟩
    exact returnWriteFrame_wp (hn hr (by simpa using hc))

theorem withoutControl_next (x : Frame) : x.withoutControl.next = x.next := by
  unfold Frame.withoutControl
  split <;> rfl

/-- Either the send loop goes on, or it has settled. -/
theorem writeVec_wp (hd : d.Keeps fun _ => True) (henv : env.LosesLast) (f : FrameId)
    (w : World Dgram π) : wp (fun _ => True) (writeVec env d f) (fun more w' =>
      (more = false → Waits w'.socket) ∧ Shut w.socket w'.socket) w := by
  rw [writeVec, wp_bind, wp_getFrame, wp_bind]
  cases (w.heap f).getVec with
  | error e => trivial
  | ok v =>
    rw [wp_liftM_ok]
    cases v with
    | none => trivial
    | some v =>
      dsimp only
      rw [wp_ite]
      refine ⟨fun _ => trivial, fun _ => ?_⟩
      rw [wp_bind, wp_setFrame, wp_bind, transmit, wp_bind, wp_getSocket, wp_bind, wp_ask]
      cases hs : env.sendmsg w.socket (w.heap f) w.clock with
      | failed e =>
        rw [World.setFrame_socket, World.setFrame_clock, hs]
        rw [wp_bind, wp_record, wp_bind]
        refine wp_mono (sendFailed_wp hd fun hr hc => ?_) fun _ w' h' => ⟨fun _ => h'.1, h'.2⟩
        simpa [withoutControl_next] using henv _ _ _ _ hs hr hc
      | sent n =>
        rw [World.setFrame_socket, World.setFrame_clock, hs]
        simp only [wp_bind, wp_record, wp_ite, wp_pure]
        refine ⟨fun _ => ?_, fun _ => ?_⟩
        · rw [wp_modifySocket]
          exact ⟨fun _ => waits_writeSetEvent _, shut_awaitWrite w.socket⟩
        · cases (w.heap f).withoutControl.advanceVec v _ with
          | error e => trivial
          | ok x =>
            rw [wp_liftM_ok, wp_bind, wp_setFrame, wp_ite]
            refine ⟨fun _ => ?_, fun _ => ?_⟩
            · rw [wp_bind, wp_modifySocket]
              exact ⟨fun _ => waits_writeSetEvent _, shut_awaitWrite w.socket⟩
            · rw [wp_bind]
              cases x.nextVec with
              | error e => trivial
              | ok r =>
                rw [wp_liftM_ok, wp_bind, wp_setFrame, wp_ite]
                refine ⟨fun _ => ⟨by simp, id⟩, fun _ => ?_⟩
                rw [wp_bind, returnWriteFrame, wp_bind, wp_getFrame, wp_bind, wp_modifySocket]
                refine wp_mono (keeps_giveBack (J := fun _ => True) f 'W' _ trivial) ?_
                exact fun _ w' h' => ⟨by simp, h'.2⟩

theorem writeEndOfStream_wp (hd : d.Keeps fun _ => True) (f : FrameId) :
    Settles (writeEndOfStream env d f) := by
  refine settles_of_shutdown fun w => ?_
  rw [writeEndOfStream, wp_bind, wp_getFrame, wp_bind, wp_modifySocket, wp_bind]
  refine wp_mono (keeps_giveBack (J := fun _ => True) f 'W' _ trivial) fun _ w' _ => ?_
  exact shutdownReal_wp hd true w'

theorem settles_writeLoop (hd : d.Keeps fun _ => True) (henv : env.LosesLast) (n : ℕ) :
    Settles (writeLoop env d n) := by
  induction n with
  | zero =>
    intro w
    rw [writeLoop, wp_bind, wp_getSocket, wp_when]
    refine ⟨fun _ => settles_awaitWrite w, fun h => ⟨waits_of_empty (not_not.mp h), id⟩⟩
  | succ n ih =>
    intro w
    rw [writeLoop, wp_bind, wp_getSocket]
    cases hf : w.socket.writeFrames with
    | none => exact ⟨waits_of_empty hf, id⟩
    | some f =>
      dsimp only
      rw [wp_bind, wp_getFrame, wp_ite]
      refine ⟨fun _ => writeEndOfStream_wp hd f w, fun _ => ?_⟩
      rw [wp_bind]
      refine wp_mono (writeVec_wp hd henv f w) ?_
      rintro more w₁ ⟨h₁, l₁⟩
      rw [wp_ite]
      refine ⟨fun _ => wp_mono (ih w₁) fun _ w₂ h₂ => ⟨h₂.1, h₂.2 ∘ l₁⟩, fun hm => ?_⟩
      exact ⟨h₁ (by simpa using hm), l₁⟩

theorem settles_writeReal (hd : d.Keeps fun _ => True) (henv : env.LosesLast) :
    Settles (writeReal env d) := by
  intro w
  rw [writeReal, wp_bind, wp_getSocket, wp_ite]
  exact ⟨fun _ => trivial, fun _ => settles_writeLoop hd henv _ w⟩

theorem settles_onWriteEvent (hd : d.Keeps fun _ => True) (henv : env.LosesLast) :
    Settles (onWriteEvent env d) := by
  intro w
  rw [onWriteEvent, wp_bind, wp_modifySocket, wp_bind, wp_getSocket, wp_ite]
  refine ⟨fun _ => ?_, fun hf => ?_⟩
  · rw [wp_bind, wp_modifySocket, wp_bind]
    refine wp_mono (settles_writeReal hd henv _) ?_
    rintro _ w₁ ⟨h₁, l₁⟩
    rw [wp_bind, wp_getSocket, wp_when]
    refine ⟨fun he => ?_, fun _ => ⟨h₁, l₁⟩⟩
    exact ⟨waits_writeUnsetEvent _ h₁ (Or.inr he), shut_writeUnsetEvent _ ∘ l₁⟩
  · have hf : w.socket.writeFrames = none := not_not.mp hf
    exact ⟨waits_writeUnsetEvent _ (waits_of_empty hf) (Or.inl hf),
      shut_writeUnsetEvent { w.socket with writeReady := true }⟩

theorem keeps_write (hJ : Lasting J) (hd : d.Keeps fun _ => True) (henv : env.LosesLast)
    (f : FrameId) : Keeps J (write env d f) := by
  refine preserves_getSocket_bind fun w hw => ?_
  rw [wp_bind, wp_getFrame, wp_ite]
  refine ⟨fun _ => ?_, fun _ => ?_⟩
  · refine Preserves.ite _ (fun _ => ?_) (fun _ => preserves_pure _) w hw
    exact (keeps_beside fun w => frameReturn_socket (fun _ _ => trivial) env.toContext f).bind
      fun _ => preserves_pure _
  · rw [wp_bind, wp_enqueueFrame, wp_ite]
    refine ⟨fun _ => ?_, fun _ => ?_⟩
    · rw [wp_bind, wp_modifySocket]
      exact ⟨hJ.of_waits _ (waits_writeSetEvent _),
        (aside_writeSetEvent (queued w f).socket).shutdown⟩
    · rw [wp_bind]
      exact wp_mono (settles_writeReal hd henv _) fun _ w' h => ⟨hJ.of_waits _ h.1, h.2⟩

theorem keeps_cntlShutdown (hJ : Lasting J) (hd : d.Keeps fun _ => True) (henv : env.LosesLast) :
    Keeps J (cntlShutdown env d) := by
  refine preserves_getSocket_bind fun w hw => ?_
  refine Preserves.ite _ (fun _ => preserves_pure _) (fun _ => Preserves.ite _
    (fun _ => preserves_pure _) fun _ => (keeps_poolBorrow _ _ _ _).bind fun r => ?_) w hw
  cases r with
  | none => exact preserves_pure _
  | some f => exact keeps_write hJ hd henv f

theorem keeps_cntlCode (hJ : Lasting J) (hd : d.Keeps fun _ => True) (henv : env.LosesLast)
    {c : Cntl} (hc : c ≠ .WRITE_STOP) : Keeps J (cntlCode env d c) := by
  cases c with
  | READ_START =>
    exact (keeps_aside hJ fun s => aside_readSetEvent s _).bind fun _ => preserves_pure _
  | READ_STOP =>
    exact (keeps_aside hJ fun s => aside_readUnsetEvent s _).bind fun _ => preserves_pure _
  | READ_PAUSE => exact keeps_cntlReadPause hJ true
  | READ_RESUME => exact keeps_cntlReadPause hJ false
  | WRITE_START =>
    exact (keeps_aside hJ fun s => aside_writeSetEvent s).bind fun _ => preserves_pure _
  | WRITE_STOP => exact absurd rfl hc
  | SHUTDOWN => exact keeps_cntlShutdown hJ hd henv

theorem keeps_dgramBind (hJ : Lasting J) : Keeps J (dgramBind (π := π) env) := by
  refine preserves_getSocket_bind fun w hw => ?_
  refine ((keeps_beside fun w => (wp_ask _).mpr rfl).bind fun ok => Preserves.ite _ (fun _ => ?_)
    fun _ => preserves_pure _) w hw
  refine (keeps_aside hJ fun s => ?_).bind fun _ =>
    (keeps_aside hJ fun s => aside_readSetEvent s _).bind fun _ => preserves_pure _
  exact ⟨rfl, id, id, id⟩

theorem keeps_dgramConnect (hJ : Lasting J) : Keeps J (dgramConnect (π := π) env) := by
  refine preserves_getSocket_bind fun w hw => ?_
  refine ((keeps_beside fun w => (wp_ask _).mpr rfl).bind fun ok => Preserves.ite _ (fun _ => ?_)
    fun _ => preserves_pure _) w hw
  refine (keeps_aside hJ fun s => ?_).bind fun _ =>
    (keeps_aside hJ fun s => aside_writeSetEvent s).bind fun _ => preserves_pure _
  exact ⟨rfl, id, id, id⟩

theorem keeps_takeReadFrame (hJ : Lasting J) (hd : d.Keeps J) :
    Keeps J (takeReadFrame env d) := by
  have hfetch : Keeps J (fetchReadFrame env d) := by
    rw [fetchReadFrame]
    cases hg : d.getReadFrame with
    | some g => exact hd.getReadFrame g hg
    | none =>
      refine (keeps_poolBorrow _ _ _ _).bind fun r => ?_
      cases r with
      | none => exact preserves_pure _
      | some f =>
        refine (keeps_beside fun w => (wp_getFrame f).mpr rfl).bind fun x =>
          (preserves_liftM fun _ _ => trivial).bind fun y =>
            (keeps_beside fun w => (wp_setFrame f _).mpr rfl).bind fun _ => preserves_pure _
  refine preserves_getSocket_bind fun w hw => ?_
  refine Preserves.ite _ (fun _ => preserves_pure _) (fun _ => hfetch.bind fun r => ?_) w hw
  cases r with
  | none => exact (keeps_pauseNoframes hJ).bind fun _ => preserves_pure _
  | some f =>
    refine (keeps_beside fun w => (wp_setOwner f _).mpr rfl).bind fun _ =>
      (keeps_aside hJ fun s => ?_).bind fun _ => preserves_pure _
    exact ⟨rfl, id, id, id⟩

theorem keeps_receive (hJ : Lasting J) (hd : d.Keeps fun _ => True) (v : Vec) (size : ℕ) :
    Keeps J (receive env d v size) := by
  have hrec : ∀ bytes : List UInt8,
      Keeps J (FrameTransporter.record (π := π) (.recv v size bytes)) :=
    fun _ => keeps_beside fun w => (wp_record _).mpr rfl
  refine preserves_getSocket_bind fun w hw => ?_
  refine ((keeps_beside fun w => (wp_ask _).mpr rfl).bind fun r => ?_) w hw
  cases r with
  | failed e =>
    have herr : Keeps J (error env d e) := (settles_of_shutdown (error_wp hd e)).keeps hJ
    cases e with
    | EAGAIN =>
      exact (hrec _).bind fun _ => (keeps_aside hJ fun s => aside_readSetEvent s _).bind fun _ =>
        preserves_pure _
    | _ => exact (hrec _).bind fun _ => herr.bind fun _ => preserves_pure _
  | datagram bytes namelen =>
    refine (hrec _).bind fun _ => Preserves.ite _ (fun _ => ?_) fun _ => preserves_pure _
    refine (keeps_aside hJ fun s => ?_).bind fun _ =>
      ((settles_of_shutdown (shutdownReal_wp hd true)).keeps hJ).bind fun _ => preserves_pure _
    exact ⟨rfl, id, id, id⟩

theorem keeps_uplink (hJ : Lasting J) (hd : d.Keeps J) (f : FrameId) : Keeps J (uplink d f) := by
  refine (keeps_aside hJ fun s => ?_).bind fun _ => ?_
  · exact ⟨rfl, id, id, id⟩
  cases hr : d.read with
  | none => exact preserves_throw trivial
  | some read =>
    refine (keeps_deliver (hd.read read hr) f).bind fun taken => Preserves.ite _
      (fun _ => preserves_pure _) fun _ => preserves_getSocket_bind fun w hw => ?_
    refine Preserves.ite _ (fun _ => preserves_throw trivial) (fun _ =>
      (keeps_beside fun w => (wp_setOwner f _).mpr rfl).bind fun _ =>
        keeps_aside hJ fun s => ?_) w hw
    exact ⟨rfl, id, id, id⟩

theorem keeps_readVec (hJ : Lasting J) (hd : d.Keeps J) (hd' : d.Keeps fun _ => True)
    (f : FrameId) : Keeps J (readVec env d f) := by
  refine (keeps_beside fun w => (wp_getFrame f).mpr rfl).bind fun x =>
    (preserves_liftM fun _ _ => trivial).bind fun v => ?_
  cases v with
  | none => exact preserves_throw trivial
  | some v =>
    refine Preserves.ite _ (fun _ => preserves_throw trivial) fun _ =>
      (keeps_receive hJ hd' v _).bind fun r => ?_
    cases r with
    | none => exact preserves_pure _
    | some r =>
      refine (preserves_liftM fun _ _ => trivial).bind fun y =>
        (preserves_liftM fun _ _ => trivial).bind fun z =>
          (keeps_beside fun w => (wp_setFrame f _).mpr rfl).bind fun _ => Preserves.ite _
            (fun _ => preserves_pure _) fun _ => (keeps_uplink hJ hd f).bind fun _ => ?_
      exact preserves_getSocket_bind fun w hw => preserves_pure _ w hw

theorem keeps_readLoop (hJ : Lasting J) (hd : d.Keeps J) (hd' : d.Keeps fun _ => True) (n : ℕ) :
    Keeps J (readLoop env d n) := by
  induction n with
  | zero => exact keeps_aside hJ fun s => aside_readSetEvent s _
  | succ n ih =>
    refine (keeps_takeReadFrame hJ hd).bind fun r => ?_
    cases r with
    | none => exact preserves_pure _
    | some f =>
      exact (keeps_readVec hJ hd hd' f).bind fun more => Preserves.ite _ (fun _ => ih) fun _ =>
        preserves_pure _

end Functions

section Runs

/-- Runs in which writing is never stopped. -/
def WriteRun (_ : World Dgram π) : Event → Prop
  | .call (.cntl codes) => Cntl.WRITE_STOP ∉ codes
  | _ => True

instance (w : World Dgram π) : (e : Event) → Decidable (WriteRun w e)
  | .call (.cntl codes) => inferInstanceAs (Decidable (Cntl.WRITE_STOP ∉ codes))
  | .call (.write _) | .call .bind | .call .connect | .call (.borrow _) | .call (.frameReturn _)
  | .call (.fill ..) | .read | .write | .error => inferInstanceAs (Decidable True)

variable (env : Env) {d : Delegate π} {J : Dgram → Prop}

theorem keeps_call (hJ : Lasting J) (hd : d.Keeps fun _ => True) (henv : env.LosesLast)
    (c : Call) : Keeps J (c.exec env d WriteRun) := by
  refine preserves_get_bind fun w hw => ?_
  rw [wp_when]
  refine ⟨?_, fun _ => ⟨hw, id⟩⟩
  rintro ⟨_, hrun⟩
  cases c with
  | write f => exact ((keeps_write hJ hd henv f).bind fun _ => preserves_pure _) w hw
  | cntl codes =>
    refine ((cntlCodes_preserves fun c hc => ?_).bind fun _ => preserves_pure _) w hw
    refine keeps_cntlCode hJ hd henv fun he => hrun ?_
    simpa [he] using (List.mem_filter.mp hc).2
  | bind => exact ((keeps_dgramBind hJ).bind fun _ => preserves_pure _) w hw
  | connect => exact ((keeps_dgramConnect hJ).bind fun _ => preserves_pure _) w hw
  | borrow type => exact ((keeps_poolBorrow _ _ _ _).bind fun _ => preserves_pure _) w hw
  | frameReturn f =>
    exact keeps_beside (fun w => frameReturn_socket (fun _ _ => trivial) env.toContext f) w hw
  | fill f type vecs vecPosition data msgControl =>
    exact ((keeps_beside fun w => (wp_getFrame f).mpr rfl).bind fun x =>
      keeps_beside fun w => (wp_setFrame f _).mpr rfl) w hw

/-- The callbacks of a scripted delegate keep what every call keeps. -/
theorem scripted_keeps (hJ : Lasting J) (henv : env.LosesLast) (script : Script) (n : ℕ) :
    (scripted (π := π) env WriteRun script n).Keeps J := by
  have htrue : ∀ m, (scripted (π := π) env WriteRun script m).Keeps fun _ => True := fun m =>
    scripted_preserves (fun w _ => ⟨trivial, id⟩) (fun w f _ _ _ _ _ => ⟨trivial, id⟩)
      (fun d hd c => keeps_call env lasting_true hd henv c) m
  refine Script.delegate_preserves (fun w hw => ⟨hw, id⟩) (fun w f _ _ _ hw _ => ⟨hw, id⟩) ?_
  intro cs
  cases n with
  | zero => exact preserves_pure _
  | succ n => exact preserves_forM fun c _ => keeps_call env hJ (htrue n) henv c

theorem event_waits (hd : d.Keeps Waits) (hd' : d.Keeps fun _ => True) (henv : env.LosesLast)
    (e : Event) : Keeps Waits (e.exec env d WriteRun) := by
  cases e with
  | call c => exact keeps_call env lasting_waits hd' henv c
  | read =>
    refine preserves_get_bind fun w hw => ?_
    refine Preserves.when _ (fun _ => preserves_getSocket_bind fun w hw => ?_) w hw
    refine Preserves.ite _ (fun _ => keeps_aside lasting_waits fun s => ?_) (fun _ =>
      Preserves.when _ fun _ => keeps_readLoop lasting_waits hd hd' _) w hw
    exact ⟨rfl, id, id, id⟩
  | write =>
    refine preserves_get_bind fun w hw => ?_
    refine Preserves.when _ (fun _ => preserves_getSocket_bind fun w hw => ?_) w hw
    exact Preserves.when _ (fun _ => (settles_onWriteEvent hd' henv).keeps lasting_waits) w hw
  | error =>
    refine preserves_get_bind fun w hw => ?_
    rw [wp_when]
    refine ⟨fun _ => ?_, fun _ => ⟨hw, id⟩⟩
    rw [wp_bind, wp_modifySocket, onError]
    exact wp_mono (error_wp hd' _ _) fun _ w' hs => ⟨waits_of_shutdown hs, fun _ => hs⟩

/-- In every run in which an unconnected socket loses no frame before others, a socket with frames
to write waits for a write event. -/
theorem run_waits (script : Script) (henv : env.LosesLast) (n : ℕ) (proto : π)
    (data : FrameId → ℕ → UInt8) (events : List Event) :
    wp (fun _ => True) (run env (scripted env WriteRun script n) WriteRun events)
      (fun _ w => Waits w.socket) (World.init init proto data) := by
  have hd := scripted_keeps (π := π) env lasting_waits henv script n
  have hd' := scripted_keeps (π := π) env lasting_true henv script n
  refine wp_mono (preserves_forM (fun e _ => event_waits env hd hd' henv e) _ ?_) fun _ _ h => h.1
  exact waits_of_empty rfl

end Runs

section Examples

-- the run below a closed precondition is evaluated by the kernel alone
attribute [local irreducible] wp

/-- A system that refuses the messages of some frames, and a pool with enough frames. -/
def refusingEnv (refuses : Frame → Bool) : Env :=
  { idleEnv with
    framePool := fun n => some ⟨0, n⟩
    sendmsg := fun _ x _ => .failed (if refuses x then .other 111 else .EAGAIN) }

/-- The calls that queue the frame which is borrowed at a time. -/
def queueFrame (n : ℕ) : List Event :=
  [.call (.borrow .rawData), .call (.fill ⟨0, n⟩ .rawData [⟨0, 0, 1, 1⟩] 0 (fun _ => 0) false),
    .call (.write ⟨0, n⟩)]

theorem run_waits_last : wp (fun _ => True)
    (run (π := Unit) (refusingEnv (·.next = none))
      (scripted (refusingEnv (·.next = none)) WriteRun idleScript 1) WriteRun
      (queueFrame 0 ++ queueFrame 1 ++ [.write]))
    (fun _ w => Waits w.socket) (World.init init () fun _ _ => 0) := by
  refine run_waits _ idleScript (fun s x n e he hr _ => ?_) 1 () _ _
  by_contra hn
  exact hr (by simp [refusingEnv, hn] at he; simp [Errno.Retryable, ← he])

/-- With two queued frames, the loss of the first leaves the second without a wake-up. -/
theorem not_run_waits_all : ¬∀ (env : Env) (script : Script) (n : ℕ) (data : FrameId → ℕ → UInt8)
    (events : List Event),
    wp (fun _ => True) (run (π := Unit) env (scripted env WriteRun script n) WriteRun events)
      (fun _ w => Waits w.socket) (World.init init () data) := by
  intro h
  have h := h (refusingEnv fun _ => true) idleScript 1 (fun _ _ => 0)
    (queueFrame 0 ++ queueFrame 1 ++ [.write])
  obtain ⟨_, w, hw, hs⟩ := wp_observe h
    (g := fun r => (r.2.socket.writeFrames, r.2.socket.shutdown, r.2.socket.writeWatcher))
    (b := (some ⟨0, 1⟩, false, false)) (by decide +kernel)
  simp only [Prod.mk.injEq] at hs
  have hwait := (hw (by simp [hs.1]) hs.2.1).2
  simp [hs.2.2] at hwait

end Examples

end Dgram

end FrameTransporter
