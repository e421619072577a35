import FrameTransporter.Sock.Stream.Discipline

/-! # Data moves only in an established connection

The code asserts, where it begins to read or to write, that the connection is
established. Whether a frame waits depends on flags that do not mention TLS: on a
stream that is connected already, a frame written during the handshake aborts the
process. In every run without such frames the assertion holds, and frames written
before the connection is established wait.
-/

namespace FrameTransporter

open Hoare

namespace Stream

open ReadEvent WriteEvent SslError

/-- The stream moves data: it is connected and no handshake is going on. -/
def Active (s : Stream) : Prop := s.connecting = false ∧ s.sslStatus ≠ 1

/-- Once reading is shut down the read watcher stays inactive. -/
def Idle (s : Stream) : Prop := s.readShutdown = true → s.readWatcher = false

/-- What the socket wants in each phase of the connection. -/
structure Phased (s : Stream) : Prop where
  connecting : s.connecting = true → s.writeReady = false ∧ WRITE_WANT_WRITE ∉ s.writeEvents ∧
    READ_WANT_READ ∉ s.readEvents ∧ SSL_READ_WANT_WRITE ∉ s.writeEvents
  handshake : s.sslStatus = 1 → s.ssl = true ∧ READ_WANT_READ ∉ s.readEvents ∧
    SSL_READ_WANT_WRITE ∉ s.writeEvents ∧ SSL_WRITE_WANT_READ ∉ s.readEvents
  plain : s.ssl = false → s.sslStatus = 0 ∧ SSL_READ_WANT_WRITE ∉ s.writeEvents ∧
    SSL_WRITE_WANT_READ ∉ s.readEvents
  finished : s.ssl = true → s.sslStatus = 0 → s.readShutdown = true ∧
    SSL_READ_WANT_WRITE ∉ s.writeEvents ∧ s.writeFrames = none ∧ s.writeOpen = false
  status : s.sslStatus ≤ 2
  level : 0 ≤ s.readPauseLevel

/-- No phase comes back: every step leads on. -/
structure Advances (s s' : Stream) : Prop where
  up : s.connecting = false → s'.connecting = false
  shaken : s.sslStatus ≠ 1 → s'.sslStatus ≠ 1
  connects : s.connecting = true → s'.connecting = false → s'.sslStatus ≠ 1
  idle : Idle s → Idle s'

/-- Steps within one phase. The events that belong to data are set in its phase only. -/
structure SamePhase (s s' : Stream) : Prop where
  connecting : s'.connecting = s.connecting
  ssl : s'.ssl = s.ssl
  sslStatus : s'.sslStatus = s.sslStatus
  writeFrames : s'.writeFrames = s.writeFrames
  writeOpen : s'.writeOpen = true → s.writeOpen = true
  level : 0 ≤ s.readPauseLevel → 0 ≤ s'.readPauseLevel
  shut : s.readShutdown = true → s'.readShutdown = true
  idle : Idle s → Idle s'
  writeReady : s'.writeReady = true → s.writeReady = true ∨ s.connecting = false
  write : WRITE_WANT_WRITE ∈ s'.writeEvents →
    WRITE_WANT_WRITE ∈ s.writeEvents ∨ s.connecting = false
  read : READ_WANT_READ ∈ s'.readEvents → READ_WANT_READ ∈ s.readEvents ∨ Active s
  sslRead : SSL_READ_WANT_WRITE ∈ s'.writeEvents →
    SSL_READ_WANT_WRITE ∈ s.writeEvents ∨ (Active s ∧ s.ssl = true ∧ s.sslStatus ≠ 0)
  sslWrite : SSL_WRITE_WANT_READ ∈ s'.readEvents →
    SSL_WRITE_WANT_READ ∈ s.readEvents ∨ (s.sslStatus ≠ 1 ∧ s.ssl = true)

instance : IsPreorder Stream Advances where
  refl _ := ⟨id, id, fun h h' => absurd (h.symm.trans h') (by simp), id⟩
  trans s s' s'' h h' := by
    refine ⟨h'.up ∘ h.up, h'.shaken ∘ h.shaken, fun hs hs'' => ?_, h'.idle ∘ h.idle⟩
    cases hc : s'.connecting with
    | false => exact h'.shaken (h.connects hs hc)
    | true => exact h'.connects hc hs''

section SamePhase

variable {s s' s'' : Stream}

theorem samePhase_refl (s : Stream) : SamePhase s s where
  connecting := rfl
  ssl := rfl
  sslStatus := rfl
  writeFrames := rfl
  writeOpen := id
  level := id
  shut := id
  idle := id
  writeReady := Or.inl
  write := Or.inl
  read := Or.inl
  sslRead := Or.inl
  sslWrite := Or.inl

theorem SamePhase.active (h : SamePhase s s') : Active s' ↔ Active s := by
  unfold Active
  rw [h.connecting, h.sslStatus]

theorem SamePhase.trans (h : SamePhase s s') (h' : SamePhase s' s'') : SamePhase s s'' where
  connecting := h'.connecting.trans h.connecting
  ssl := h'.ssl.trans h.ssl
  sslStatus := h'.sslStatus.trans h.sslStatus
  writeFrames := h'.writeFrames.trans h.writeFrames
  writeOpen := h.writeOpen ∘ h'.writeOpen
  level := h'.level ∘ h.level
  shut := h'.shut ∘ h.shut
  idle := h'.idle ∘ h.idle
  writeReady hr := (h'.writeReady hr).elim h.writeReady fun hc => Or.inr (h.connecting ▸ hc)
  write he := (h'.write he).elim h.write fun hc => Or.inr (h.connecting ▸ hc)
  read he := (h'.read he).elim h.read fun ha => Or.inr (h.active.mp ha)
  sslRead he := (h'.sslRead he).elim h.sslRead fun ⟨ha, hs, h0⟩ =>
    Or.inr ⟨h.active.mp ha, h.ssl ▸ hs, h.sslStatus ▸ h0⟩
  sslWrite he := (h'.sslWrite he).elim h.sslWrite fun ⟨h1, hs⟩ =>
    Or.inr ⟨h.sslStatus ▸ h1, h.ssl ▸ hs⟩

theorem SamePhase.advances (h : SamePhase s s') : Advances s s' where
  up hc := h.connecting.trans hc
  shaken h1 := h.sslStatus ▸ h1
  connects hs hs' := absurd (hs.symm.trans (h.connecting.symm.trans hs')) (by simp)
  idle := h.idle

/-- Within a phase the socket wants what belongs to the phase. -/
theorem SamePhase.phased (h : SamePhase s s') (hs : Phased s) : Phased s' where
  connecting hc := by
    have hc : s.connecting = true := h.connecting ▸ hc
    have hn : ¬s.connecting = false := by simp [hc]
    obtain ⟨hr, hw, hr', hr''⟩ := hs.connecting hc
    refine ⟨?_, fun he => ?_, fun he => ?_, fun he => ?_⟩
    · cases hw' : s'.writeReady with
      | false => rfl
      | true => exact absurd ((h.writeReady hw').resolve_right hn) (by simp [hr])
    · exact hw ((h.write he).resolve_right hn)
    · exact hr' ((h.read he).resolve_right fun ha => hn ha.1)
    · exact hr'' ((h.sslRead he).resolve_right fun ha => hn ha.1.1)
  handshake h1 := by
    have h1 : s.sslStatus = 1 := h.sslStatus ▸ h1
    obtain ⟨hssl, hr, hr', hw⟩ := hs.handshake h1
    refine ⟨h.ssl.trans hssl, fun he => ?_, fun he => ?_, fun he => ?_⟩
    · exact hr ((h.read he).resolve_right fun ha => ha.2 h1)
    · exact hr' ((h.sslRead he).resolve_right fun ha => ha.1.2 h1)
    · exact hw ((h.sslWrite he).resolve_right fun ha => ha.1 h1)
  plain hp := by
    have hp : s.ssl = false := h.ssl ▸ hp
    have hn : ¬s.ssl = true := by simp [hp]
    obtain ⟨h0, hr, hw⟩ := hs.plain hp
    refine ⟨h.sslStatus.trans h0, fun he => ?_, fun he => ?_⟩
    · exact hr ((h.sslRead he).resolve_right fun ha => hn ha.2.1)
    · exact hw ((h.sslWrite he).resolve_right fun ha => hn ha.2)
  finished hssl h0 := by
    have h0 : s.sslStatus = 0 := h.sslStatus ▸ h0
    obtain ⟨hsh, hr, hf, ho⟩ := hs.finished (h.ssl ▸ hssl) h0
    refine ⟨h.shut hsh, fun he => ?_, h.writeFrames.trans hf, ?_⟩
    · exact hr ((h.sslRead he).resolve_right fun ha => ha.2.2 h0)
    · cases ho' : s'.writeOpen with
      | false => rfl
      | true => exact absurd (h.writeOpen ho') (by simp [ho])
  status := h.sslStatus ▸ hs.status
  level := h.level hs.level

theorem samePhase_readSetEvent {e : Finset ReadEvent} (s : Stream)
    (hr : READ_WANT_READ ∈ e → Active s)
    (hw : SSL_WRITE_WANT_READ ∈ e → s.sslStatus ≠ 1 ∧ s.ssl = true) :
    SamePhase s (readSetEvent e s) := by
  rw [readSetEvent_eq]
  exact { samePhase_refl s with
    connecting := rfl
    ssl := rfl
    sslStatus := rfl
    writeFrames := rfl
    idle := fun h hs => (if_neg fun hc => by simp [hc.2.2] at hs).trans (h hs)
    read := fun h => (Finset.mem_union.mp h).imp_right hr
    sslWrite := fun h => (Finset.mem_union.mp h).imp_right hw }

theorem samePhase_readUnsetEvent (e : Finset ReadEvent) (s : Stream) :
    SamePhase s (readUnsetEvent e s) := by
  rw [readUnsetEvent_eq]
  exact { samePhase_refl s with
    connecting := rfl
    ssl := rfl
    sslStatus := rfl
    writeFrames := rfl
    idle := fun _ hs => if_pos (Or.inr (Or.inl hs))
    read := fun h => Or.inl (Finset.mem_sdiff.mp h).1
    sslWrite := fun h => Or.inl (Finset.mem_sdiff.mp h).1 }

theorem samePhase_writeSetEvent {e : Finset WriteEvent} (s : Stream)
    (hw : WRITE_WANT_WRITE ∈ e → s.connecting = false)
    (hr : SSL_READ_WANT_WRITE ∈ e → Active s ∧ s.ssl = true ∧ s.sslStatus ≠ 0) :
    SamePhase s (writeSetEvent e s) := by
  rw [writeSetEvent_eq]
  exact { samePhase_refl s with
    connecting := rfl
    ssl := rfl
    sslStatus := rfl
    writeFrames := rfl
    write := fun h => (Finset.mem_union.mp h).imp_right hw
    sslRead := fun h => (Finset.mem_union.mp h).imp_right hr }

theorem samePhase_writeUnsetEvent (e : Finset WriteEvent) (s : Stream) :
    SamePhase s (writeUnsetEvent e s) := by
  rw [writeUnsetEvent_eq]
  exact { samePhase_refl s with
    connecting := rfl
    ssl := rfl
    sslStatus := rfl
    writeFrames := rfl
    write := fun h => Or.inl (Finset.mem_sdiff.mp h).1
    sslRead := fun h => Or.inl (Finset.mem_sdiff.mp h).1 }

theorem samePhase_awaitWrite (ha : Active s) : SamePhase s (awaitWrite s) := by
  have hr : SamePhase s { s with writeReady := false } :=
    { samePhase_refl s with writeReady := fun h => by simp at h }
  exact hr.trans (samePhase_writeSetEvent _ (fun _ => ha.1) (by simp))

theorem samePhase_writeShut (now : ℚ) (s : Stream) : SamePhase s (writeShut now s) :=
  { samePhase_refl s with }

theorem samePhase_paused (s : Stream) : SamePhase s (paused s) := by
  have hp : SamePhase s { s with readPauseLevel := s.readPauseLevel + 1 } :=
    { samePhase_refl s with level := fun hl => Int.le_add_one hl }
  unfold paused
  split
  · exact hp.trans (samePhase_readUnsetEvent _ _)
  · exact hp

theorem samePhase_resumed (hl : 0 < s.readPauseLevel) : SamePhase s (resumed s) := by
  have hp : SamePhase s { s with readPauseLevel := s.readPauseLevel - 1 } :=
    { samePhase_refl s with level := fun _ => Int.le_sub_one_of_lt hl }
  unfold resumed
  split
  · exact hp.trans (samePhase_readSetEvent _ (by simp) (by simp))
  · exact hp

end SamePhase

/-- The TLS library completes the shutdown only of a stream that has nothing left to read or to
write, and does not want to write when it reads after that. -/
structure ShutsLast (env : Env) : Prop where
  shutdown : ∀ s n, env.sslShutdown s n = .completed → s.readShutdown = true ∧
    SSL_READ_WANT_WRITE ∉ s.writeEvents ∧ s.writeFrames = none ∧ s.writeOpen = false
  read : ∀ s n x, env.sslRead s n = .failed x → x.error = SSL_ERROR_WANT_WRITE → s.sslStatus ≠ 0

section Discipline

variable {env : Env} {s s' : Stream}

theorem SamePhase.update (h : SamePhase s s') (hs : Phased s) : Phased s' ∧ Advances s s' :=
  ⟨h.phased hs, h.advances⟩

theorem Idle.started (h : Idle s) : Idle (started s) := by
  unfold Stream.started
  rw [writeSetEvent_eq, readSetEvent_eq]
  exact fun hs => (if_neg fun hc => by simp [hc.2.2] at hs).trans (h hs)

@[simp] theorem ssl_started (s : Stream) : (started s).ssl = s.ssl := by
  rw [started, writeSetEvent_eq, readSetEvent_eq]

@[simp] theorem sslStatus_started (s : Stream) : (started s).sslStatus = s.sslStatus := by
  rw [started, writeSetEvent_eq, readSetEvent_eq]

/-- A connection without TLS is up. -/
theorem phased_connected (h : Phased s) (hs : s.ssl = false) :
    Phased { started s with connecting := false } := by
  obtain ⟨h0, hr, hw⟩ := h.plain hs
  unfold started
  rw [writeSetEvent_eq, readSetEvent_eq]
  refine ⟨by simp, fun h1 => ?_, fun _ => ⟨h0, by simpa using hr, by simpa using hw⟩,
    fun h' _ => ?_, h.status, h.level⟩
  · exact absurd (h0.symm.trans h1) (by simp)
  · exact absurd (hs.symm.trans h') (by simp)

/-- A TLS session is up. -/
theorem phased_handshakeDone (h : Phased s) (hs : s.ssl = true) :
    Phased { started s with connecting := false, sslStatus := 2 } := by
  unfold started
  rw [writeSetEvent_eq, readSetEvent_eq]
  exact ⟨by simp, by simp, fun hp => absurd (hs.symm.trans hp) (by simp), by simp, le_rfl, h.level⟩

/-- One case for each update of the socket. -/
theorem phased_update (henv : ShutsLast env) (h : Phased s) (hu : Update env Active s s') :
    Phased s' ∧ Advances s s' := by
  cases hu with
  | note => exact SamePhase.update { samePhase_refl s with } h
  | dequeue hf =>
    refine ⟨{ h with finished := fun hssl h0 => ?_ }, ⟨id, id, fun hc hc' => ?_, id⟩⟩
    · exact absurd (h.finished hssl h0).2.2.1 hf
    · exact absurd (hc.symm.trans hc') (by simp)
  | enqueue ho =>
    refine ⟨{ h with finished := fun hssl h0 => ?_ }, ⟨id, id, fun hc hc' => ?_, id⟩⟩
    · exact absurd (ho.symm.trans (h.finished hssl h0).2.2.2) (by simp)
    · exact absurd (hc.symm.trans hc') (by simp)
  | stopWrite => exact (samePhase_writeUnsetEvent _ _).update h
  | wantWrite hc => exact (samePhase_writeSetEvent _ (fun _ => hc) (by simp)).update h
  | awaitWrite ha => exact (samePhase_awaitWrite ha).update h
  | writable hc =>
    exact SamePhase.update { samePhase_refl s with writeReady := fun _ => Or.inr hc } h
  | takeWrite =>
    exact SamePhase.update { samePhase_refl s with
      write := fun he => Or.inl (Finset.mem_sdiff.mp he).1
      sslRead := fun he => Or.inl (Finset.mem_sdiff.mp he).1 } h
  | shutWrite | abort | sslShutWrite => exact (samePhase_writeShut _ _).update h
  | pause => exact (samePhase_paused _).update h
  | resume hl => exact (samePhase_resumed hl).update h
  | pausedEvent => exact SamePhase.update { samePhase_refl s with idle := fun _ _ => rfl } h
  | wantRead ha => exact (samePhase_readSetEvent _ (fun _ => ha) (by simp)).update h
  | shutRead =>
    have hk := samePhase_readUnsetEvent {READ_WANT_READ} s
    have hoff : (readUnsetEvent {READ_WANT_READ} s).readWatcher = false := by
      rw [readUnsetEvent_eq]
      exact if_pos (Or.inr (Or.inr h.level))
    generalize readUnsetEvent {READ_WANT_READ} s = t at hk hoff ⊢
    have hk' : SamePhase t { t with readShutdown := true } :=
      { samePhase_refl t with shut := fun _ => rfl, idle := fun _ _ => hoff }
    exact (hk.trans hk').update h
  | connected hc hs =>
    have hk := samePhase_writeUnsetEvent {CONNECT_WANT_WRITE} s
    have hst := (h.plain hs).1
    refine ⟨phased_connected (hk.phased h) (hk.ssl.trans hs), ⟨fun _ => rfl, fun h1 => ?_,
      fun _ _ => ?_, fun hi => (hk.idle hi).started⟩⟩
    all_goals
      change (started (writeUnsetEvent {CONNECT_WANT_WRITE} s)).sslStatus ≠ 1
      rw [sslStatus_started, hk.sslStatus, hst]
      exact Nat.zero_ne_one
  | sslConnect =>
    exact ((samePhase_writeUnsetEvent _ _).trans ((samePhase_writeSetEvent _ (by simp)
      (by simp)).trans (samePhase_readSetEvent _ (by simp) (by simp)))).update h
  | handshakeDone hs =>
    have hk := (samePhase_writeUnsetEvent {SSL_HANDSHAKE_WANT_WRITE} s).trans
      (samePhase_readUnsetEvent {SSL_HANDSHAKE_WANT_READ} _)
    generalize readUnsetEvent {SSL_HANDSHAKE_WANT_READ}
      (writeUnsetEvent {SSL_HANDSHAKE_WANT_WRITE} s) = t at hk ⊢
    exact ⟨phased_handshakeDone (hk.phased h) (hk.ssl.trans hs),
      ⟨fun _ => rfl, by simp, by simp, fun hi => (hk.idle hi).started⟩⟩
  | handshakeWantRead =>
    exact ((samePhase_readSetEvent _ (by simp) (by simp)).trans
      (samePhase_writeUnsetEvent _ _)).update h
  | handshakeWantWrite =>
    exact ((samePhase_readUnsetEvent _ _).trans
      (samePhase_writeSetEvent _ (by simp) (by simp))).update h
  | sslWriteWantRead ha hs =>
    exact ((samePhase_readSetEvent _ (by simp) fun _ => ⟨ha.2, hs⟩).trans
      (samePhase_writeUnsetEvent _ _)).update h
  | sslWriteWantWrite ha =>
    exact ((samePhase_awaitWrite ha).trans (samePhase_readUnsetEvent _ _)).update h
  | sslReadWantRead ha =>
    exact ((samePhase_readSetEvent _ (fun _ => ha) (by simp)).trans
      (samePhase_writeUnsetEvent _ _)).update h
  | sslReadWantWrite ha hs hr hx =>
    have hk := samePhase_readUnsetEvent {READ_WANT_READ} s
    refine (hk.trans (samePhase_writeSetEvent _ (by simp) fun _ =>
      ⟨hk.active.mpr ha, ?_, ?_⟩)).update h
    · exact hk.ssl.trans hs
    · rw [hk.sslStatus]
      exact henv.read _ _ _ hr hx
  | sslShutSent =>
    exact ((samePhase_writeShut _ _).trans ((samePhase_writeUnsetEvent _ _).trans
      (samePhase_readSetEvent _ (by simp) (by simp)))).update h
  | sslShutCompleted hs _ hr =>
    obtain ⟨hsh, hrw, hf, ho⟩ := henv.shutdown _ _ hr
    have h' : Phased { s with sslStatus := 0 } :=
      { connecting := h.connecting
        handshake := by simp
        plain := fun hp => absurd (hs.symm.trans hp) (by simp)
        finished := fun _ _ => ⟨hsh, hrw, hf, ho⟩
        status := by simp
        level := h.level }
    have hk : Advances s { s with sslStatus := 0 } := ⟨id, by simp, by simp, id⟩
    obtain ⟨h'', k'⟩ := ((samePhase_writeUnsetEvent {SSL_SHUTDOWN_WANT_WRITE} _).trans
      ((samePhase_readSetEvent (e := {SSL_SHUTDOWN_WANT_READ}) _ (by simp) (by simp)).trans
        (samePhase_writeShut _ _))).update h'
    exact ⟨h'', trans_of Advances hk k'⟩
  | sslShutWantRead =>
    exact ((samePhase_readSetEvent _ (by simp) (by simp)).trans
      (samePhase_writeUnsetEvent _ _)).update h
  | sslShutWantWrite =>
    exact ((samePhase_readUnsetEvent _ _).trans
      (samePhase_writeSetEvent _ (by simp) (by simp))).update h

/-- The faults of a run but the assertion on the phase. -/
def NotPhase (e : Fault) : Prop := e ≠ .abort .phase

/-- A stream that moves data and has a frame to write is established. -/
theorem Phased.established (h : Phased s) (ha : Active s) (hf : s.writeFrames ≠ none) :
    s.Established := by
  obtain ⟨hc, h1⟩ := ha
  refine ⟨hc, ?_⟩
  cases hs : s.ssl with
  | false => exact Or.inl ⟨rfl, (h.plain hs).1⟩
  | true =>
    have h0 : s.sslStatus ≠ 0 := fun h0 => hf (h.finished hs h0).2.2.1
    have h2 := h.status
    exact Or.inr ⟨rfl, by omega⟩

/-- A stream that reads when it can write is established. -/
theorem Phased.established_sslRead (h : Phased s) (he : SSL_READ_WANT_WRITE ∈ s.writeEvents) :
    s.Established := by
  have hs : s.ssl = true := by
    by_contra hs
    exact (h.plain (by simpa using hs)).2.1 he
  have hc : s.connecting = false := by
    by_contra hc
    exact (h.connecting (by simpa using hc)).2.2.2 he
  have h0 : s.sslStatus ≠ 0 := fun h0 => (h.finished hs h0).2.1 he
  have h1 : s.sslStatus ≠ 1 := fun h1 => (h.handshake h1).2.2.1 he
  have h2 := h.status
  exact ⟨hc, Or.inr ⟨hs, by omega⟩⟩

/-- A stream whose read watcher fires to read data is established. -/
theorem Phased.established_read (h : Phased s) (hi : Idle s) (hw : s.readWatcher = true)
    (he : READ_WANT_READ ∈ s.readEvents) : s.Established := by
  have hc : s.connecting = false := by
    by_contra hc
    exact (h.connecting (by simpa using hc)).2.2.1 he
  refine ⟨hc, ?_⟩
  cases hs : s.ssl with
  | false => exact Or.inl ⟨rfl, (h.plain hs).1⟩
  | true =>
    have h0 : s.sslStatus ≠ 0 := fun h0 =>
      absurd (hw.symm.trans (hi (h.finished hs h0).1)) (by simp)
    have h1 : s.sslStatus ≠ 1 := fun h1 => (h.handshake h1).2.1 he
    have h2 := h.status
    exact Or.inr ⟨rfl, by omega⟩

theorem phased_failed (h : Phased s) (now : ℚ) (e : Option Errno) (l : ℕ) :
    Phased (failed now e l s) :=
  { h with finished := fun hs h0 =>
      ⟨rfl, (h.finished hs h0).2.1, (h.finished hs h0).2.2.1, rfl⟩ }

theorem phased_stopped (h : Phased s) : Phased (stopped s) := { h with }

theorem phase_discipline (henv : ShutsLast env) :
    Discipline env NotPhase Phased Active Advances where
  update _ _ h hu := phased_update henv h hu
  error _ _ _ _ h := ⟨phased_failed h _ _ _, fun _ ht k =>
    ⟨phased_stopped ht, k.up, k.shaken, k.connects, fun _ _ => rfl⟩⟩
  errorEvent _ _ _ _ h := ⟨phased_failed (phased_stopped h) _ _ _, fun _ ht k =>
    ⟨phased_stopped ht, k.up, k.shaken, k.connects, fun _ _ => rfl⟩⟩
  active _ _ ha k := ⟨k.up ha.1, k.shaken ha.2⟩
  begin s h hc hs := ⟨hc, fun h1 => by
    rcases hs with hs | h2
    · exact absurd ((h.plain hs).1.symm.trans h1) (by simp)
    · omega⟩
  fault a ha := fun he => ha (Fault.abort.inj he)
  enter _ h ha hf := Or.inl (h.established ha hf)
  enterSslRead _ h he := Or.inl (h.established_sslRead he)
  enterSslWrite _ h he hc hf := Or.inl (h.established ⟨hc, fun h1 => (h.handshake h1).2.2.2 he⟩ hf)
  enterConnected _ _ _ hc h' k _ hc' hf := Or.inl (h'.established ⟨hc', k.connects hc hc'⟩ hf)

end Discipline

section Runs

variable {π : Type}

/-- Runs in which no frame is sent during a handshake: neither by a write when the stream is ready,
nor by a write event that finds frames in the queue. TLS is enabled in full, and not by the
delegate while it is called back. -/
def KeepsPhase (callback : Bool) (w : World Stream π) : Event → Prop
  | .call (.write _) => w.socket.writeReady = true → w.socket.sslStatus ≠ 1
  | .call (.cntl codes) => .READ_START ∉ codes ∧ .WRITE_START ∉ codes ∧
    (.WRITE_SHUTDOWN ∈ codes → w.socket.writeReady = true → w.socket.sslStatus ≠ 1)
  | .call (.enableSsl r) =>
    callback = false ∧ (r.new = true → r.setFd = true ∧ r.setExData = true)
  | .write => WRITE_WANT_WRITE ∈ w.socket.writeEvents → w.socket.writeFrames ≠ none →
    w.socket.sslStatus ≠ 1
  | _ => True

instance (callback : Bool) (w : World Stream π) : (e : Event) → Decidable (KeepsPhase callback w e)
  | .call (.write _) =>
    inferInstanceAs (Decidable (w.socket.writeReady = true → w.socket.sslStatus ≠ 1))
  | .call (.cntl codes) => inferInstanceAs (Decidable (.READ_START ∉ codes ∧
      .WRITE_START ∉ codes ∧ (.WRITE_SHUTDOWN ∈ codes → w.socket.writeReady = true →
        w.socket.sslStatus ≠ 1)))
  | .call (.enableSsl r) => inferInstanceAs (Decidable (callback = false ∧
      (r.new = true → r.setFd = true ∧ r.setExData = true)))
  | .write => inferInstanceAs (Decidable (WRITE_WANT_WRITE ∈ w.socket.writeEvents →
      w.socket.writeFrames ≠ none → w.socket.sslStatus ≠ 1))
  | .call (.setPartial _) | .call (.borrow _) | .call (.frameReturn _)
  | .call (.fill ..) | .read | .error => inferInstanceAs (Decidable True)

variable {env : Env} {d : Delegate π} {w : World Stream π} {f : FrameId} {callback : Bool}

/-- As `Respects`, for the phases of the connection. -/
abbrev KeepsPhases {α : Type} (m : StreamM π α) : Prop := Respects NotPhase Phased Advances m

/-- The delegate respects the phases of the connection. -/
abbrev DelegatePhased (d : Delegate π) : Prop :=
  d.Preserves NotPhase (OnSocket Phased) (SocketStep Advances)

/-- Frames are written at once only outside of a handshake. -/
def MayWrite (s : Stream) : Prop := s.writeReady = true → s.sslStatus ≠ 1

theorem Phased.established_write {s : Stream} (h : Phased s) (hm : MayWrite s)
    (ho : s.writeOpen = true) (hr : s.writeReady = true) : s.Established := by
  have hc : s.connecting = false := by
    by_contra hc
    exact absurd (hr.symm.trans (h.connecting (by simpa using hc)).1) (by simp)
  refine ⟨hc, ?_⟩
  cases hs : s.ssl with
  | false => exact Or.inl ⟨rfl, (h.plain hs).1⟩
  | true =>
    have h0 : s.sslStatus ≠ 0 := fun h0 =>
      absurd (ho.symm.trans (h.finished hs h0).2.2.2) (by simp)
    have h1 := hm hr
    have h2 := h.status
    exact Or.inr ⟨rfl, by omega⟩

theorem SamePhase.mayWrite {s s' : Stream} (h : SamePhase s s') (hr : s'.writeReady = s.writeReady)
    (hm : MayWrite s) : MayWrite s' := by
  unfold MayWrite
  rw [hr, h.sslStatus]
  exact hm

theorem writeReady_paused (s : Stream) : (paused s).writeReady = s.writeReady := by
  unfold paused
  split
  · rw [readUnsetEvent_eq]
  · rfl

theorem writeReady_resumed (s : Stream) : (resumed s).writeReady = s.writeReady := by
  unfold resumed
  split
  · rw [readSetEvent_eq]
  · rfl

/-- The control codes that come before the shutdown leave the phase and the ready flag alone. -/
theorem cntlCode_phased {c : Cntl}
    (hc : c ∈ [Cntl.READ_STOP, .READ_PAUSE, .READ_RESUME, .WRITE_STOP])
    (p : Prop) : Preserves NotPhase (OnSocket fun s => Phased s ∧ (p → MayWrite s))
      (SocketStep Advances) (cntlCode env d c) := by
  have calm : ∀ {s s' : Stream}, SamePhase s s' → s'.writeReady = s.writeReady →
      Phased s ∧ (p → MayWrite s) → (Phased s' ∧ (p → MayWrite s')) ∧ Advances s s' :=
    fun hk hr h => ⟨⟨hk.phased h.1, fun hp => hk.mayWrite hr (h.2 hp)⟩, hk.advances⟩
  intro w h
  cases c with
  | READ_STOP =>
    unfold cntlCode cntlReadStop
    rw [wp_bind, wp_modifySocket, wp_pure]
    exact calm (samePhase_readUnsetEvent _ w.socket) (by simp [readUnsetEvent_eq]) h
  | WRITE_STOP =>
    unfold cntlCode cntlWriteStop
    rw [wp_bind, wp_modifySocket, wp_pure]
    exact calm (samePhase_writeUnsetEvent _ w.socket) (by simp [writeUnsetEvent_eq]) h
  | READ_PAUSE =>
    unfold cntlCode
    rw [wp_cntlReadPause, if_pos rfl]
    exact calm (samePhase_paused _) (writeReady_paused _) h
  | READ_RESUME =>
    unfold cntlCode
    rw [wp_cntlReadPause, if_neg (by simp)]
    split
    · simp [NotPhase]
    · next hl => exact calm (samePhase_resumed (not_le.mp hl)) (writeReady_resumed _) h
  | _ => simp at hc

theorem cntl_keepsPhases (henv : ShutsLast env) (hd : DelegatePhased d) {codes : Finset Cntl}
    (h : Phased w.socket) (hr : .READ_START ∉ codes) (hw : .WRITE_START ∉ codes)
    (hm : .WRITE_SHUTDOWN ∈ codes → MayWrite w.socket) :
    RespectsAt NotPhase Phased Advances (cntl env d codes) w := by
  have D := phase_discipline henv
  have hall : Cntl.all.filter (· ∈ codes) =
      [Cntl.READ_STOP, .READ_PAUSE, .READ_RESUME, .WRITE_STOP].filter (· ∈ codes) ++
        ([Cntl.WRITE_SHUTDOWN].filter (· ∈ codes) ++ [Cntl.ABORT].filter (· ∈ codes)) := by
    rw [← List.filter_append, ← List.filter_append]
    simp [Cntl.all, List.filter_cons, hr, hw]
  have hearly : Preserves NotPhase
      (OnSocket fun s => Phased s ∧ (.WRITE_SHUTDOWN ∈ codes → MayWrite s)) (SocketStep Advances)
      (cntlCodes env d ([Cntl.READ_STOP, .READ_PAUSE, .READ_RESUME, .WRITE_STOP].filter
        (· ∈ codes))) :=
    cntlCodes_preserves fun c hc => cntlCode_phased (List.mem_filter.mp hc).1 _
  unfold cntl RespectsAt
  rw [hall, wp_cntlCodes_append]
  refine wp_mono (hearly w ⟨h, hm⟩) ?_
  rintro _ w₁ ⟨⟨h₁, hm₁⟩, k₁⟩
  rw [wp_cntlCodes_append]
  have hshut : RespectsAt NotPhase Phased Advances
      (cntlCodes env d ([Cntl.WRITE_SHUTDOWN].filter (· ∈ codes))) w₁ := by
    rw [List.filter_singleton]
    by_cases hc : Cntl.WRITE_SHUTDOWN ∈ codes
    · rw [decide_eq_true hc, cond_true]
      refine RespectsAt.bind (D.cntlWriteShutdown_respects hd h₁ fun ho hr => ?_) ?_
      · exact Or.inl (h₁.established_write (hm₁ hc) ho hr)
      · exact fun _ w₂ h₂ _ => RespectsAt.bind (respectsAt_pure true h₂) fun _ _ h₃ _ =>
          respectsAt_pure _ h₃
    · rw [decide_eq_false hc, cond_false]
      exact respectsAt_pure true h₁
  have habort : KeepsPhases (cntlCodes env d ([Cntl.ABORT].filter (· ∈ codes))) := by
    refine cntlCodes_preserves fun c hc => ?_
    rw [List.mem_singleton.mp (List.mem_filter.mp hc).1]
    exact D.cntlAbort_respects hd
  refine wp_mono hshut ?_
  rintro _ w₂ ⟨h₂, k₂⟩
  refine wp_mono (habort w₂ h₂) ?_
  rintro _ w₃ ⟨h₃, k₃⟩
  refine ⟨h₃, ?_⟩
  exact trans_of Advances (trans_of Advances k₁ k₂) k₃

theorem call_keepsPhases (henv : ShutsLast env) (hd : DelegatePhased d) (c : Call) :
    KeepsPhases (c.exec env d (KeepsPhase true)) :=
  (phase_discipline henv).call_respects hd c
    (fun _ _ h hm ho hr => Or.inl (h.established_write hm ho hr))
    (fun _ _ h ⟨hr, hw, hm⟩ => cntl_keepsPhases henv hd h hr hw hm) fun _ _ _ _ ⟨hc, _⟩ =>
      absurd hc (by simp)

/-- The socket when TLS has been enabled. -/
def handshaking (s : Stream) : Stream :=
  { readUnsetEvent {READ_WANT_READ} (readSetEvent {SSL_HANDSHAKE_WANT_READ}
      (writeSetEvent {SSL_HANDSHAKE_WANT_WRITE} { s with ssl := true })) with sslStatus := 1 }

theorem writeEvents_handshaking (s : Stream) :
    (handshaking s).writeEvents = s.writeEvents ∪ {SSL_HANDSHAKE_WANT_WRITE} := by
  simp only [handshaking, readUnsetEvent_eq, readSetEvent_eq, writeSetEvent_eq]

theorem readEvents_handshaking (s : Stream) : (handshaking s).readEvents =
    (s.readEvents ∪ {SSL_HANDSHAKE_WANT_READ}) \ {READ_WANT_READ} := by
  simp only [handshaking, readUnsetEvent_eq, readSetEvent_eq, writeSetEvent_eq]

/-- TLS begins with a handshake. -/
theorem settled_handshaking {s : Stream} (h : Phased s) (hs : s.ssl = false) :
    Phased (handshaking s) ∧ Idle (handshaking s) := by
  obtain ⟨-, hrw, hwr⟩ := h.plain hs
  have hc : (handshaking s).connecting = s.connecting := by
    simp only [handshaking, readUnsetEvent_eq, readSetEvent_eq, writeSetEvent_eq]
  have hready : (handshaking s).writeReady = s.writeReady := by
    simp only [handshaking, readUnsetEvent_eq, readSetEvent_eq, writeSetEvent_eq]
  have hssl : (handshaking s).ssl = true := by
    simp only [handshaking, readUnsetEvent_eq, readSetEvent_eq, writeSetEvent_eq]
  have hl : (handshaking s).readPauseLevel = s.readPauseLevel := by
    simp only [handshaking, readUnsetEvent_eq, readSetEvent_eq, writeSetEvent_eq]
  have hw := writeEvents_handshaking s
  have hr := readEvents_handshaking s
  refine ⟨⟨fun hcon => ?_, fun _ => ⟨hssl, ?_, ?_, ?_⟩, fun hoff => ?_, fun _ h0 => ?_, ?_, ?_⟩, ?_⟩
  · obtain ⟨hr', hw', -, -⟩ := h.connecting (hc ▸ hcon)
    rw [hready, hw, hr]
    exact ⟨hr', by simpa using hw', by simp, by simpa using hrw⟩
  · simp [hr]
  · simpa [hw] using hrw
  · simpa [hr] using hwr
  · exact absurd (hssl.symm.trans hoff) (by simp)
  · exact absurd h0 (by simp [handshaking])
  · simp [handshaking]
  · exact hl ▸ h.level
  · intro hsh
    unfold handshaking at hsh ⊢
    generalize readSetEvent {SSL_HANDSHAKE_WANT_READ} _ = t at hsh ⊢
    rw [readUnsetEvent_eq] at hsh ⊢
    exact if_pos (Or.inr (Or.inl hsh))

theorem enableSsl_phased {r : SslNew} (hr : r.new = true → r.setFd = true ∧ r.setExData = true)
    (h : Phased w.socket) (hi : Idle w.socket) :
    wp NotPhase (enableSsl r) (fun _ w' => Phased w'.socket ∧ Idle w'.socket) w := by
  unfold enableSsl
  rw [wp_bind, wp_getSocket, wp_ite]
  refine ⟨fun _ => ⟨h, hi⟩, fun hs => ?_⟩
  have hs : w.socket.ssl = false := by simpa using hs
  rw [wp_bind, wp_modifySocket, wp_ite]
  refine ⟨fun hfail => ?_, fun hok => ?_⟩
  · have hnew : r.new = false := by
      by_contra hnew
      have hok := hr (by simpa using hnew)
      rcases hfail with hf | hf | hf
      · exact hnew hf
      · exact absurd (hok.1.symm.trans hf) (by simp)
      · exact absurd (hok.2.symm.trans hf) (by simp)
    have hsame : ({ w.socket with ssl := r.new } : Stream) = w.socket := by rw [hnew, ← hs]
    rw [wp_pure, World.setSocket_socket, hsame]
    exact ⟨h, hi⟩
  · have hnew : r.new = true := by simpa using fun hf => hok (Or.inl hf)
    simp only [wp_bind, wp_modifySocket, World.setSocket_setSocket, World.setSocket_socket,
      wp_pure, hnew]
    exact settled_handshaking h hs

/-- Between two events the phases are right, and a read watcher of no use is inactive. -/
def Settled (s : Stream) : Prop := Phased s ∧ Idle s

theorem event_settled (henv : ShutsLast env) (hd : DelegatePhased d) (e : Event)
    (h : Settled w.socket) :
    wp NotPhase (e.exec env d (KeepsPhase false)) (fun _ w' => Settled w'.socket) w := by
  have D := phase_discipline henv
  obtain ⟨h, hi⟩ := h
  suffices hs : (∀ r, e ≠ .call (.enableSsl r)) →
      RespectsAt NotPhase Phased Advances (e.exec env d (KeepsPhase false)) w by
    by_cases he : ∃ r, e = .call (.enableSsl r)
    · obtain ⟨r, rfl⟩ := he
      unfold Event.exec Call.exec
      rw [wp_bind, wp_get, wp_when]
      refine ⟨?_, fun _ => ⟨h, hi⟩⟩
      rintro ⟨_, _, hr⟩
      unfold Call.perform
      rw [wp_bind]
      exact wp_mono (enableSsl_phased hr h hi) fun _ _ h' => h'
    · refine wp_mono (hs fun r hr => he ⟨r, hr⟩) ?_
      rintro _ _ ⟨h', k⟩
      exact ⟨h', k.idle hi⟩
  intro hne
  refine D.event_respects hd e h (fun c hc => ?_) (fun hw _ _ he => ?_) fun hrun _ he hc hf => ?_
  · subst hc
    exact D.call_respects hd c (fun _ _ h hm ho hr => Or.inl (h.established_write hm ho hr))
      (fun _ _ h ⟨hr, hw, hm⟩ => cntl_keepsPhases henv hd h hr hw hm)
      (fun _ r hr => absurd (hr ▸ rfl) (hne r)) w h
  · exact Or.inl (h.established_read hi hw he)
  · exact Or.inl (h.established ⟨hc, hrun he hf⟩ hf)

theorem SamePhase.settled {s s' : Stream} (h : SamePhase s s') (hs : Settled s) : Settled s' :=
  ⟨h.phased hs.1, h.idle hs.2⟩

theorem settled_init (connecting sslServer : Bool) : Settled (Stream.init connecting sslServer) :=
  ⟨⟨fun _ => by simp [Stream.init], by simp [Stream.init], by simp [Stream.init],
    by simp [Stream.init], by simp [Stream.init], le_rfl⟩, by simp [Idle, Stream.init]⟩

theorem settled_opened (o : Opening) : Settled (opened o) := by
  cases o with
  | connect =>
    exact (samePhase_writeSetEvent (e := {CONNECT_WANT_WRITE}) _ (by simp) (by simp)).settled
      (settled_init true false)
  | _ =>
    have hr : SamePhase (Stream.init false true) (readSetEvent {READ_WANT_READ} _) :=
      samePhase_readSetEvent _ (fun _ => ⟨rfl, by simp [Stream.init]⟩) (by simp)
    exact (hr.trans (samePhase_writeSetEvent (e := {WRITE_WANT_WRITE}) _
      (fun _ => hr.connecting) (by simp))).settled (settled_init false true)

/-- The state in which a frame was queued and waits for a write event. -/
def waiting (w : World Stream π) (f : FrameId) : World Stream π :=
  if w.socket.connecting = false then
    (queued w f).setSocket (writeSetEvent {WRITE_WANT_WRITE} (queued w f).socket)
  else queued w f

/-- Before the connection is established, frames wait: nothing is sent, and nothing fails. -/
def Waits (env : Env) (d : Delegate π) (w : World Stream π) : Prop :=
  ∀ f, w.socket.writeOpen = true → ¬Active w.socket →
    wp (fun _ => False) (Stream.write env d f) (fun ok w' => ok = true ∧ w' = waiting w f) w

theorem Phased.waits (h : Phased w.socket) (hm : MayWrite w.socket) : Waits env d w := by
  intro f ho ha
  have hr : w.socket.writeReady = false := by
    by_contra hr
    have hr : w.socket.writeReady = true := by simpa using hr
    refine ha ⟨?_, hm hr⟩
    by_contra hc
    exact absurd (hr.symm.trans (h.connecting (by simpa using hc)).1) (by simp)
  unfold Stream.write waiting
  rw [wp_bind, wp_getSocket, if_neg (by simp [ho]), wp_bind, wp_enqueueFrame, if_pos hr, wp_bind,
    wp_when]
  refine ⟨fun hc => ⟨rfl, (if_pos hc).symm⟩, fun hc => ⟨rfl, (if_neg hc).symm⟩⟩

/-- In every run in which no frame is sent during a handshake, data moves only in an established
connection, and until then the frames that may be written wait. -/
theorem run_phased (henv : ShutsLast env) (script : Script) (n : ℕ) (o : Opening) (proto : π)
    (data : FrameId → ℕ → UInt8) (events : List Event) :
    wp NotPhase (run env (scripted env (KeepsPhase true) script n) (KeepsPhase false) events)
      (fun _ w => MayWrite w.socket → Waits env (scripted env (KeepsPhase true) script n) w)
      (World.init (opened o) proto data) := by
  have hd : DelegatePhased (scripted (π := π) env (KeepsPhase true) script n) :=
    Discipline.scripted_respects (fun d hd c => call_keepsPhases henv hd c) script n
  refine wp_mono (wp_forM (I := fun w => Settled w.socket)
    (fun e _ w h => event_settled henv hd e h) (settled_opened o)) fun _ w h hm => ?_
  exact h.1.waits hm

end Runs

section Examples

-- the run below a closed precondition is evaluated by the kernel alone
attribute [local irreducible] wp

/-- A server that writes after the handshake. -/
theorem run_phased_handshake :
    let env : Env := { idleEnv with
      sslDoHandshake := fun _ _ => .completed true
      sslWrite := fun _ _ => .sent 0 }
    let d : Delegate Unit := scripted env (KeepsPhase true) idleScript 1
    wp NotPhase (run env d (KeepsPhase false)
      [.call (.enableSsl ⟨true, true, true⟩), .write, .call (.cntl {.WRITE_SHUTDOWN}), .write])
      (fun _ w => MayWrite w.socket → Waits env d w)
      (World.init (opened .accept) () fun _ _ => 0) := by
  intro env d
  refine run_phased ⟨?_, ?_⟩ idleScript 1 .accept () _ _
  all_goals simp [env, idleEnv]

/-- A frame that a server writes during the handshake aborts the process. -/
theorem not_run_phased_all :
    ¬∀ (env : Env) (script : Script) (n : ℕ) (o : Opening) (data : FrameId → ℕ → UInt8)
      (events : List Event), ShutsLast env →
      wp NotPhase (run (π := Unit) env (scripted env (fun _ _ => True) script n)
        (fun _ _ => True) events) (fun _ _ => True) (World.init (opened o) () data) := by
  intro h
  have hfault := wp_fault (h { idleEnv with framePool := fun _ => some ⟨0, 0⟩ } idleScript 0 .accept
    (fun _ _ => 0) [.call (.enableSsl ⟨true, true, true⟩), .write, .call (.borrow .rawData),
      .call (.write ⟨0, 0⟩)] ⟨by simp [idleEnv], by simp [idleEnv]⟩) (e := .abort .phase)
    (by decide +kernel)
  exact hfault rfl

end Examples

end Stream

end FrameTransporter
