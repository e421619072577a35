import Mathlib.Data.Finset.Lattice.Lemmas
import FrameTransporter.Sock.Stream.Discipline

/-! # The read watcher follows what the stream wants to read

The read watcher should be active exactly while some read event is wanted and
reading is neither paused nor shut down. Taking back one read event always stops
the watcher, so this fails when another event stays wanted. It holds in every run
in which read events are only taken back when nothing else is to be read.
-/

namespace FrameTransporter

open Hoare

namespace Stream

open ReadEvent WriteEvent SslError

/-- Some read event is wanted, and reading is neither paused nor shut down. -/
def Wanted (s : Stream) : Prop :=
  s.readEvents ≠ ∅ ∧ s.readPauseLevel = 0 ∧ s.readShutdown = false

/-- The read watcher is active exactly while it is wanted. -/
def Watched (s : Stream) : Prop := s.readWatcher = true ↔ Wanted s

/-- Without the events `e` nothing is to be read. -/
def Spared (e : Finset ReadEvent) (s : Stream) : Prop :=
  ¬Wanted { s with readEvents := s.readEvents \ e }

instance (s : Stream) : Decidable (Wanted s) := inferInstanceAs (Decidable (_ ∧ _))

instance (e : Finset ReadEvent) (s : Stream) : Decidable (Spared e s) :=
  inferInstanceAs (Decidable (¬_))

/-- What every step keeps: an idle watcher has nothing to read, an active one has, and reading is
never opened again. -/
structure Keeps (s s' : Stream) : Prop where
  active : (s.readWatcher = true → Wanted s) → s'.readWatcher = true → Wanted s'
  wanted : (Wanted s → s.readWatcher = true) → Wanted s' → s'.readWatcher = true
  shut : s.readShutdown = true → s'.readShutdown = true

instance : IsPreorder Stream Keeps where
  refl _ := ⟨id, id, id⟩
  trans _ _ _ h h' := ⟨h'.active ∘ h.active, h'.wanted ∘ h.wanted, h'.shut ∘ h.shut⟩

section Steps

variable {s s' : Stream} {e : Finset ReadEvent}

theorem Keeps.watched (h : Keeps s s') (hs : Watched s) : Watched s' :=
  ⟨h.active hs.mp, h.wanted hs.mpr⟩

theorem keeps_of_eq (he : s'.readEvents = s.readEvents)
    (hl : s'.readPauseLevel = s.readPauseLevel) (hs : s'.readShutdown = s.readShutdown)
    (hw : s'.readWatcher = s.readWatcher) : Keeps s s' := by
  have hwant : Wanted s' ↔ Wanted s := by rw [Wanted, Wanted, he, hl, hs]
  refine ⟨fun h hw' => hwant.mpr (h (hw ▸ hw')), fun h hw' => ?_, fun h => hs.trans h⟩
  exact hw.trans (h (hwant.mp hw'))

theorem Keeps.congr {t : Stream} (h : Keeps s t) (he : s'.readEvents = t.readEvents)
    (hl : s'.readPauseLevel = t.readPauseLevel) (hs : s'.readShutdown = t.readShutdown)
    (hw : s'.readWatcher = t.readWatcher) : Keeps s s' :=
  trans_of Keeps h (keeps_of_eq he hl hs hw)

theorem keeps_readSetEvent (e : Finset ReadEvent) (s : Stream) : Keeps s (readSetEvent e s) := by
  rw [readSetEvent_eq]
  refine ⟨fun h hw => ?_, fun _ hw => if_pos hw, id⟩
  dsimp only at hw
  split at hw
  · assumption
  · next hn =>
    obtain ⟨he, hl, hs⟩ := h hw
    exact absurd ⟨fun hu => he (Finset.union_eq_empty.mp hu).1, hl, hs⟩ hn

/-- Taking back events always stops the watcher. -/
theorem readUnsetEvent_readWatcher (hl : 0 ≤ s.readPauseLevel) (e : Finset ReadEvent) :
    (readUnsetEvent e s).readWatcher = false := by
  rw [readUnsetEvent_eq]
  exact if_pos (Or.inr (Or.inr hl))

theorem wanted_readUnsetEvent :
    Wanted (readUnsetEvent e s) ↔ Wanted { s with readEvents := s.readEvents \ e } := by
  rw [readUnsetEvent_eq]
  rfl

theorem keeps_readUnsetEvent (hl : 0 ≤ s.readPauseLevel) (he : Spared e s) :
    Keeps s (readUnsetEvent e s) := by
  refine ⟨fun _ hw => ?_, fun _ hw => absurd (wanted_readUnsetEvent.mp hw) he, fun hs => ?_⟩
  · simp [readUnsetEvent_readWatcher hl] at hw
  · rw [readUnsetEvent_eq]
    exact hs

/-- Taking back events leaves the watcher as it is wanted if and only if nothing else is. -/
theorem watched_readUnsetEvent (hl : 0 ≤ s.readPauseLevel) :
    Watched (readUnsetEvent e s) ↔ Spared e s := by
  rw [Watched, readUnsetEvent_readWatcher hl, wanted_readUnsetEvent, Spared]
  simp

theorem keeps_of_shut (hs : s'.readShutdown = true) (hw : s'.readWatcher = false) : Keeps s s' :=
  ⟨fun _ h => by simp [hw] at h, fun _ h => by simp [h.2.2] at hs, fun _ => hs⟩

theorem keeps_writeSetEvent (e : Finset WriteEvent) (s : Stream) :
    Keeps s (writeSetEvent e s) := by
  rw [writeSetEvent_eq]
  exact keeps_of_eq rfl rfl rfl rfl

theorem keeps_writeUnsetEvent (e : Finset WriteEvent) (s : Stream) :
    Keeps s (writeUnsetEvent e s) := by
  rw [writeUnsetEvent_eq]
  exact keeps_of_eq rfl rfl rfl rfl

theorem keeps_awaitWrite (s : Stream) : Keeps s (awaitWrite s) := by
  unfold awaitWrite
  rw [writeSetEvent_eq]
  exact keeps_of_eq rfl rfl rfl rfl

/-- While reading is paused there is nothing to watch. -/
theorem keeps_paused (hl : 0 ≤ s.readPauseLevel) : Keeps s (paused s) := by
  unfold paused
  split
  · next h1 =>
    have hl' : 0 ≤ ({ s with readPauseLevel := s.readPauseLevel + 1 } : Stream).readPauseLevel := by
      change 0 ≤ s.readPauseLevel + 1
      omega
    refine ⟨fun _ hw => ?_, fun _ hw => ?_, fun hs => ?_⟩
    · rw [readUnsetEvent_readWatcher hl'] at hw
      cases hw
    · have h0 : s.readPauseLevel + 1 = 0 := (wanted_readUnsetEvent.mp hw).2.1
      omega
    · rw [readUnsetEvent_eq]
      exact hs
  · refine ⟨fun h hw => ?_, fun _ hw => ?_, id⟩
    · have h0 : s.readPauseLevel = 0 := (h hw).2.1
      omega
    · have h0 : s.readPauseLevel + 1 = 0 := hw.2.1
      omega

theorem keeps_resumed (hl : 0 < s.readPauseLevel) : Keeps s (resumed s) := by
  have hwant : ¬Wanted s := fun h => by
    have := h.2.1
    omega
  unfold resumed
  split
  · rw [readSetEvent_eq]
    refine ⟨fun h hw => ?_, fun _ hw => if_pos hw, id⟩
    dsimp only at hw
    split at hw
    · assumption
    · exact absurd (h hw) hwant
  · next h1 => exact ⟨fun h hw => absurd (h hw) hwant, fun _ hw => absurd hw.2.1 h1, id⟩

theorem keeps_writeShut (now : ℚ) (s : Stream) : Keeps s (writeShut now s) :=
  keeps_of_eq rfl rfl rfl rfl

theorem keeps_started (s : Stream) : Keeps s (started s) :=
  trans_of Keeps (keeps_readSetEvent _ _) (keeps_writeSetEvent _ _)

/-- Starting to read right away makes up for any event that was taken back. -/
theorem keeps_restarted (hl : 0 ≤ s.readPauseLevel) (e : Finset ReadEvent) :
    Keeps s (started (readUnsetEvent e s)) := by
  have hw := readUnsetEvent_readWatcher hl e
  have hs : (readUnsetEvent e s).readShutdown = s.readShutdown := by rw [readUnsetEvent_eq]
  have hk := keeps_readSetEvent {READ_WANT_READ} (readUnsetEvent e s)
  refine trans_of Keeps ⟨fun _ => hk.active (by simp [hw]), fun _ hwant => ?_, hk.shut ∘ hs.trans⟩
    (keeps_writeSetEvent _ _)
  rw [readSetEvent_eq] at hwant ⊢
  exact if_pos hwant

theorem spared_awaitWrite : Spared e (awaitWrite s) ↔ Spared e s := by
  unfold awaitWrite
  rw [writeSetEvent_eq]
  rfl

@[simp] theorem readPauseLevel_started (s : Stream) :
    (started s).readPauseLevel = s.readPauseLevel := by
  rw [started, writeSetEvent_eq, readSetEvent_eq]

@[simp] theorem readPauseLevel_awaitWrite (s : Stream) :
    (awaitWrite s).readPauseLevel = s.readPauseLevel := by rw [awaitWrite, writeSetEvent_eq]

@[simp] theorem readPauseLevel_readSetEvent (e : Finset ReadEvent) (s : Stream) :
    (readSetEvent e s).readPauseLevel = s.readPauseLevel := by rw [readSetEvent_eq]

@[simp] theorem readPauseLevel_readUnsetEvent (e : Finset ReadEvent) (s : Stream) :
    (readUnsetEvent e s).readPauseLevel = s.readPauseLevel := by rw [readUnsetEvent_eq]

@[simp] theorem readPauseLevel_writeSetEvent (e : Finset WriteEvent) (s : Stream) :
    (writeSetEvent e s).readPauseLevel = s.readPauseLevel := by rw [writeSetEvent_eq]

@[simp] theorem readPauseLevel_writeUnsetEvent (e : Finset WriteEvent) (s : Stream) :
    (writeUnsetEvent e s).readPauseLevel = s.readPauseLevel := by rw [writeUnsetEvent_eq]

end Steps

/-- The TLS library wants to write, instead of to read, only when nothing else is to be read. -/
structure SparesReads (env : Env) : Prop where
  handshake : ∀ s n x, env.sslDoHandshake s n = .failed x → x.error = SSL_ERROR_WANT_WRITE →
    Spared {SSL_HANDSHAKE_WANT_READ} s
  read : ∀ s n x, env.sslRead s n = .failed x → x.error = SSL_ERROR_WANT_WRITE →
    Spared {READ_WANT_READ} s
  write : ∀ s n x, env.sslWrite s n = .failed x → x.error = SSL_ERROR_WANT_WRITE →
    Spared {SSL_WRITE_WANT_READ} s
  shutdown : ∀ s n x, env.sslShutdown s n = .failed x → x.error = SSL_ERROR_WANT_WRITE →
    Spared {SSL_SHUTDOWN_WANT_READ} s

section Discipline

variable {env : Env} {s s' : Stream}

/-- One case for each update of the socket. -/
theorem keeps_update (henv : SparesReads env) (h : 0 ≤ s.readPauseLevel)
    (hu : Update env (fun _ => True) s s') : 0 ≤ s'.readPauseLevel ∧ Keeps s s' := by
  cases hu with
  | note | dequeue | enqueue | writable | takeWrite => exact ⟨h, keeps_of_eq rfl rfl rfl rfl⟩
  | shutWrite | abort | sslShutWrite => exact ⟨h, keeps_of_eq rfl rfl rfl rfl⟩
  | stopWrite => exact ⟨by simpa, keeps_writeUnsetEvent _ _⟩
  | wantWrite => exact ⟨by simpa, keeps_writeSetEvent _ _⟩
  | awaitWrite => exact ⟨by simpa, keeps_awaitWrite _⟩
  | pause =>
    refine ⟨?_, keeps_paused h⟩
    unfold paused
    split <;> simp <;> omega
  | resume hl =>
    refine ⟨?_, keeps_resumed hl⟩
    unfold resumed
    split <;> simp <;> omega
  | pausedEvent hl =>
    refine ⟨h, fun _ hw => by simp at hw, fun _ hw => ?_, id⟩
    have h0 : s.readPauseLevel = 0 := hw.2.1
    omega
  | wantRead => exact ⟨by simpa, keeps_readSetEvent _ _⟩
  | shutRead =>
    refine ⟨by simpa, keeps_of_shut rfl ?_⟩
    exact readUnsetEvent_readWatcher h _
  | connected =>
    have hk : Keeps s (started (writeUnsetEvent {CONNECT_WANT_WRITE} s)) :=
      trans_of Keeps (keeps_writeUnsetEvent _ _) (keeps_started _)
    exact ⟨by simpa, hk.congr rfl rfl rfl rfl⟩
  | sslConnect =>
    exact ⟨by simpa, trans_of Keeps (keeps_writeUnsetEvent _ _)
      (trans_of Keeps (keeps_writeSetEvent _ _) (keeps_readSetEvent _ _))⟩
  | handshakeDone =>
    have hk : Keeps s (started (readUnsetEvent {SSL_HANDSHAKE_WANT_READ}
        (writeUnsetEvent {SSL_HANDSHAKE_WANT_WRITE} s))) :=
      trans_of Keeps (keeps_writeUnsetEvent _ _) (keeps_restarted (by simpa) _)
    refine ⟨by simpa, ?_⟩
    generalize started (readUnsetEvent {SSL_HANDSHAKE_WANT_READ}
      (writeUnsetEvent {SSL_HANDSHAKE_WANT_WRITE} s)) = t at hk ⊢
    exact hk.congr rfl rfl rfl rfl
  | handshakeWantRead =>
    exact ⟨by simpa, trans_of Keeps (keeps_readSetEvent _ _) (keeps_writeUnsetEvent _ _)⟩
  | handshakeWantWrite _ _ hr hx =>
    exact ⟨by simpa, trans_of Keeps (keeps_readUnsetEvent h (henv.handshake _ _ _ hr hx))
      (keeps_writeSetEvent _ _)⟩
  | sslWriteWantRead =>
    exact ⟨by simpa, trans_of Keeps (keeps_readSetEvent _ _) (keeps_writeUnsetEvent _ _)⟩
  | sslWriteWantWrite _ _ hr hx =>
    have he := spared_awaitWrite.mpr (henv.write _ _ _ hr hx)
    exact ⟨by simpa, trans_of Keeps (keeps_awaitWrite _) (keeps_readUnsetEvent (by simpa) he)⟩
  | sslReadWantRead =>
    exact ⟨by simpa, trans_of Keeps (keeps_readSetEvent _ _) (keeps_writeUnsetEvent _ _)⟩
  | sslReadWantWrite _ _ hr hx =>
    exact ⟨by simpa, trans_of Keeps (keeps_readUnsetEvent h (henv.read _ _ _ hr hx))
      (keeps_writeSetEvent _ _)⟩
  | sslShutSent =>
    exact ⟨by simpa, trans_of Keeps (keeps_writeShut _ _)
      (trans_of Keeps (keeps_writeUnsetEvent _ _) (keeps_readSetEvent _ _))⟩
  | sslShutCompleted =>
    have hk : Keeps s { s with sslStatus := 0 } := keeps_of_eq rfl rfl rfl rfl
    exact ⟨by simpa [writeShut], trans_of Keeps hk (trans_of Keeps (keeps_writeUnsetEvent _ _)
      (trans_of Keeps (keeps_readSetEvent _ _) (keeps_writeShut _ _)))⟩
  | sslShutWantRead =>
    exact ⟨by simpa, trans_of Keeps (keeps_readSetEvent _ _) (keeps_writeUnsetEvent _ _)⟩
  | sslShutWantWrite _ _ hr hx =>
    exact ⟨by simpa, trans_of Keeps (keeps_readUnsetEvent h (henv.shutdown _ _ _ hr hx))
      (keeps_writeSetEvent _ _)⟩

theorem keeps_discipline (henv : SparesReads env) :
    Discipline env (fun _ => True) (0 ≤ ·.readPauseLevel) (fun _ => True) Keeps where
  update _ _ h hu := keeps_update henv h hu
  error _ _ _ _ h := ⟨h, fun _ ht hk => ⟨ht, keeps_of_shut (hk.shut rfl) rfl⟩⟩
  errorEvent _ _ _ _ h := ⟨h, fun _ ht hk => ⟨ht, keeps_of_shut (hk.shut rfl) rfl⟩⟩
  active _ _ _ _ := trivial
  begin _ _ _ _ := trivial
  fault _ _ := trivial
  enter _ _ _ _ := Or.inr trivial
  enterSslRead _ _ _ := Or.inr trivial
  enterSslWrite _ _ _ _ _ := Or.inr trivial
  enterConnected _ _ _ _ _ _ _ _ _ := Or.inr trivial

end Discipline

section Runs

variable {π : Type}

/-- Runs in which reading is stopped, and TLS enabled, only when no other event is to be read: else
the application pauses the stream before. -/
def StopsLast (w : World Stream π) : Event → Prop
  | .call (.cntl codes) => .READ_STOP ∈ codes → Spared {READ_WANT_READ} w.socket
  | .call (.enableSsl r) => w.socket.ssl = false → r = ⟨true, true, true⟩ →
    w.socket.readPauseLevel ≠ 0 ∨ w.socket.readShutdown = true
  | _ => True

instance (w : World Stream π) : (e : Event) → Decidable (StopsLast w e)
  | .call (.cntl codes) =>
    inferInstanceAs (Decidable (.READ_STOP ∈ codes → Spared {READ_WANT_READ} w.socket))
  | .call (.enableSsl r) => inferInstanceAs (Decidable (w.socket.ssl = false →
      r = ⟨true, true, true⟩ → w.socket.readPauseLevel ≠ 0 ∨ w.socket.readShutdown = true))
  | .call (.write _) | .call (.setPartial _) | .call (.borrow _) | .call (.frameReturn _)
  | .call (.fill ..) | .read | .write | .error => inferInstanceAs (Decidable True)

variable {env : Env} {d : Delegate π} {w : World Stream π}

/-- As `Respects`, for the read watcher. -/
abbrev KeepsWatch {α : Type} (m : StreamM π α) : Prop :=
  Respects (fun _ => True) (0 ≤ ·.readPauseLevel) Keeps m

/-- The delegate respects the read watcher. -/
abbrev DelegateKeeps (d : Delegate π) : Prop :=
  d.Preserves (fun _ => True) (OnSocket (0 ≤ ·.readPauseLevel)) (SocketStep Keeps)

theorem cntlCode_keeps (henv : SparesReads env) (hd : DelegateKeeps d) {c : Cntl}
    (hc : c ≠ .READ_STOP) : KeepsWatch (cntlCode env d c) := by
  have D := keeps_discipline henv
  intro w h
  cases c with
  | READ_START => exact ⟨by simpa [OnSocket] using h, keeps_readSetEvent _ _⟩
  | READ_STOP => exact absurd rfl hc
  | READ_PAUSE => exact D.cntlReadPause_respects true w h
  | READ_RESUME => exact D.cntlReadPause_respects false w h
  | WRITE_START => exact ⟨by simpa [OnSocket] using h, keeps_writeSetEvent _ _⟩
  | WRITE_STOP => exact ⟨by simpa [OnSocket] using h, keeps_writeUnsetEvent _ _⟩
  | WRITE_SHUTDOWN => exact D.cntlWriteShutdown_respects hd h fun _ _ => Or.inr trivial
  | ABORT => exact D.cntlAbort_respects hd w h

theorem spared_readSetEvent (s : Stream) :
    Spared {READ_WANT_READ} (readSetEvent {READ_WANT_READ} s) ↔ Spared {READ_WANT_READ} s := by
  rw [readSetEvent_eq]
  unfold Spared Wanted
  dsimp only
  rw [Finset.union_sdiff_right]

theorem cntl_keeps (henv : SparesReads env) (hd : DelegateKeeps d) {codes : Finset Cntl}
    (h : 0 ≤ w.socket.readPauseLevel)
    (hstop' : .READ_STOP ∈ codes → Spared {READ_WANT_READ} w.socket) :
    RespectsAt (fun _ => True) (0 ≤ ·.readPauseLevel) Keeps (cntl env d codes) w := by
  have hrest : KeepsWatch (cntlCodes env d ([Cntl.READ_PAUSE, .READ_RESUME, .WRITE_START,
      .WRITE_STOP, .WRITE_SHUTDOWN, .ABORT].filter (· ∈ codes))) := by
    refine cntlCodes_preserves fun c hc => cntlCode_keeps henv hd ?_
    rintro rfl
    simp at hc
  have hstop : ∀ w : World Stream π, 0 ≤ w.socket.readPauseLevel →
      (.READ_STOP ∈ codes → Spared {READ_WANT_READ} w.socket) →
      RespectsAt (fun _ => True) (0 ≤ ·.readPauseLevel) Keeps (cntlCodes env d
        ((Cntl.READ_STOP :: [.READ_PAUSE, .READ_RESUME, .WRITE_START, .WRITE_STOP, .WRITE_SHUTDOWN,
          .ABORT]).filter (· ∈ codes))) w := by
    intro w h hs
    rw [List.filter_cons]
    split
    · next hc =>
      unfold cntlCodes
      refine RespectsAt.bind ⟨?_, ?_⟩ fun _ w₁ h₁ _ => ?_
      · simpa using h
      · exact keeps_readUnsetEvent h (hs (by simpa using hc))
      · exact RespectsAt.bind (hrest w₁ h₁) fun _ w₂ h₂ _ => respectsAt_pure _ h₂
    · exact hrest w h
  unfold cntl Cntl.all
  rw [List.filter_cons]
  split
  · unfold cntlCodes RespectsAt
    have hk := keeps_readSetEvent {READ_WANT_READ} w.socket
    rw [wp_bind, cntlCode, cntlReadStart, wp_bind, wp_modifySocket, wp_pure]
    have hs := hstop (w.setSocket (readSetEvent {READ_WANT_READ} w.socket)) (by simpa) fun hc =>
      (spared_readSetEvent _).mpr (hstop' hc)
    rw [wp_bind]
    refine wp_mono hs ?_
    rintro _ w₁ ⟨h₁, k₁⟩
    exact ⟨h₁, trans_of Keeps hk k₁⟩
  · exact hstop w h hstop'

theorem enableSsl_keeps (r : SslNew) (h : 0 ≤ w.socket.readPauseLevel)
    (hp : w.socket.ssl = false → r = ⟨true, true, true⟩ →
      w.socket.readPauseLevel ≠ 0 ∨ w.socket.readShutdown = true) :
    RespectsAt (fun _ => True) (0 ≤ ·.readPauseLevel) Keeps (enableSsl r) w := by
  unfold enableSsl RespectsAt
  rw [wp_bind, wp_getSocket, wp_ite]
  refine ⟨fun _ => ⟨h, refl_of Keeps _⟩, fun hoff => ?_⟩
  have hssl : Keeps w.socket { w.socket with ssl := r.new } := keeps_of_eq rfl rfl rfl rfl
  have hk : Keeps w.socket (readSetEvent {SSL_HANDSHAKE_WANT_READ}
      (writeSetEvent {SSL_HANDSHAKE_WANT_WRITE} { w.socket with ssl := r.new })) :=
    trans_of Keeps hssl (trans_of Keeps (keeps_writeSetEvent _ _) (keeps_readSetEvent _ _))
  rw [wp_bind, wp_modifySocket, wp_ite]
  refine ⟨fun _ => ⟨h, hssl⟩, fun hr => ?_⟩
  have hp := hp (by simpa using hoff) (by cases r; simp_all)
  have hs : Spared {READ_WANT_READ} (readSetEvent {SSL_HANDSHAKE_WANT_READ}
      (writeSetEvent {SSL_HANDSHAKE_WANT_WRITE} { w.socket with ssl := r.new })) := by
    rw [readSetEvent_eq, writeSetEvent_eq]
    rintro ⟨-, hl, hsh⟩
    rcases hp with hp | hp
    · exact hp hl
    · exact absurd (hp.symm.trans hsh) (by simp)
  simp only [wp_bind, wp_modifySocket, World.setSocket_setSocket, World.setSocket_socket, wp_pure]
  have hu := trans_of Keeps hk (keeps_readUnsetEvent (by simpa) hs)
  refine ⟨by simpa, ?_⟩
  generalize readUnsetEvent {READ_WANT_READ} _ = t at hu ⊢
  exact hu.congr rfl rfl rfl rfl

theorem call_keeps (henv : SparesReads env) (hd : DelegateKeeps d) (c : Call) :
    KeepsWatch (c.exec env d StopsLast) :=
  (keeps_discipline henv).call_respects hd c (fun _ _ _ _ _ _ => Or.inr trivial)
    (fun _ _ h hrun => cntl_keeps henv hd h hrun) fun _ r _ h hrun => enableSsl_keeps r h hrun

theorem event_keeps (henv : SparesReads env) (hd : DelegateKeeps d) (e : Event) :
    KeepsWatch (e.exec env d StopsLast) := fun w h =>
  (keeps_discipline henv).event_respects hd e h (fun c _ => call_keeps henv hd c w h)
    (fun _ _ _ _ => Or.inr trivial) fun _ _ _ _ _ => Or.inr trivial

theorem watched_opened (o : Opening) : Watched (opened o) ∧ 0 ≤ (opened o).readPauseLevel := by
  have hi : ∀ a b, Watched (Stream.init a b) ∧ 0 ≤ (Stream.init a b).readPauseLevel := fun a b => by
    simp [Watched, Wanted, Stream.init]
  cases o with
  | connect =>
    exact ⟨(keeps_writeSetEvent _ _).watched (hi _ _).1, by simpa [opened] using (hi _ _).2⟩
  | _ =>
    exact ⟨(keeps_started (Stream.init false true)).watched (hi _ _).1,
      by simpa [opened] using (hi _ _).2⟩

/-- In every run in which read events are taken back only when nothing else is to be read, the read
watcher is active exactly while it is wanted. -/
theorem run_watched (henv : SparesReads env) (script : Script) (n : ℕ) (o : Opening) (proto : π)
    (data : FrameId → ℕ → UInt8) (events : List Event) :
    wp (fun _ => True) (run env (scripted env StopsLast script n) StopsLast events)
      (fun _ w => Watched w.socket) (World.init (opened o) proto data) := by
  obtain ⟨hw, hl⟩ := watched_opened o
  have hd : DelegateKeeps (scripted (π := π) env StopsLast script n) :=
    Discipline.scripted_respects (fun d hd c => call_keeps henv hd c) script n
  refine wp_mono (preserves_forM (fun e _ => event_keeps henv hd e) _ hl) fun _ w h => ?_
  exact h.2.watched hw

end Runs

section Examples

-- the run below a closed precondition is evaluated by the kernel alone
attribute [local irreducible] wp

/-- TLS enabled while reading is paused. -/
theorem run_watched_paused :
    let env : Env := { idleEnv with sslWrite := fun _ _ => .sent 0 }
    wp (fun _ => True) (run (π := Unit) env (scripted env StopsLast idleScript 1) StopsLast
      [.call (.cntl {.READ_PAUSE}), .call (.enableSsl ⟨true, true, true⟩),
        .call (.cntl {.READ_RESUME}), .read, .write])
      (fun _ w => Watched w.socket) (World.init (opened .accept) () fun _ _ => 0) := by
  intro env
  refine run_watched ⟨?_, ?_, ?_, ?_⟩ idleScript 1 .accept () _ _
  all_goals simp [env, idleEnv]

/-- Enabling TLS on an accepted stream stops the read watcher, although the handshake wants to
read. -/
theorem not_run_watched_all :
    ¬∀ (env : Env) (script : Script) (n : ℕ) (o : Opening) (data : FrameId → ℕ → UInt8)
      (events : List Event),
      wp (fun _ => True) (run (π := Unit) env (scripted env (fun _ _ => True) script n)
        (fun _ _ => True) events) (fun _ w => Watched w.socket)
      (World.init (opened o) () data) := by
  intro h
  obtain ⟨_, w, hwatch, hw⟩ := wp_observe (h idleEnv idleScript 0 .accept (fun _ _ => 0)
      [.call (.enableSsl ⟨true, true, true⟩)])
    (g := fun r => (r.2.socket.readWatcher, decide (Wanted r.2.socket))) (b := (false, true))
    (by decide +kernel)
  obtain ⟨hoff, hwant⟩ := Prod.mk.inj hw
  have hon := hwatch.mpr (of_decide_eq_true hwant)
  exact absurd (hoff.symm.trans hon) (by simp)

end Examples

end Stream

end FrameTransporter
