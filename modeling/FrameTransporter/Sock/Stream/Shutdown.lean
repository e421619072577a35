import FrameTransporter.Sock.Stream.Closure
import FrameTransporter.Sock.Stream.EndOfStream
import FrameTransporter.Sock.Stream.Terminal

/-! # The shutdown flags and their times

Each side of a stream has a flag that tells it is shut, and a time at which it was.
An error sets all of them, and closes the write side. A read shutdown means to set
its time, but tests for a time that was never set in a way that never holds, and an
abort shuts the write side while it stays open. So the flags and times agree until
reading ends, and again after an error.
-/

namespace FrameTransporter

open Hoare

namespace Stream

open ReadEvent WriteEvent SslError

variable {π : Type}

/-- A write side that is shut is closed, and each side is shut if and only if it has a time. -/
structure Consistent (s : Stream) : Prop where
  closed : s.writeShutdown = true → s.writeOpen = false
  read : s.readShutdown = true ↔ s.readShutdownAt ≠ none
  write : s.writeShutdown = true ↔ s.writeShutdownAt ≠ none

/-- What the flags tell at every moment. An error sets the time of the read side, and nothing else
does; the TLS session is shut only behind a closed write side. -/
structure ShutInv (w : World Stream π) : Prop where
  stamped : w.socket.readShutdownAt ≠ none ↔ Failed w
  failed : Failed w → w.socket.readShutdown = true ∧ w.socket.writeOpen = false
  ended : Ended w → w.socket.readShutdown = true
  write : w.socket.writeShutdown = true ↔ w.socket.writeShutdownAt ≠ none
  shutting : SSL_SHUTDOWN_WANT_WRITE ∈ w.socket.writeEvents ∨
    SSL_SHUTDOWN_WANT_READ ∈ w.socket.readEvents → w.socket.writeOpen = false
  shut : w.socket.writeShutdown = true →
    w.socket.writeOpen = false ∨ w.socket.readShutdown = true

/-- Reading was shut by its end or by an error. Between the flag and the end-of-stream frame, this
is still to come. -/
def Announced (w : World Stream π) : Prop := w.socket.readShutdown = true → Ended w ∨ Failed w

/-- What no call undoes. -/
structure Closes (w w' : World Stream π) : Prop where
  closed : w.socket.writeOpen = false → w'.socket.writeOpen = false
  shut : w.socket.readShutdown = true → w'.socket.readShutdown = true
  ended : Ended w → Ended w'
  announced : Announced w → Announced w'

instance : IsPreorder (World Stream π) Closes where
  refl _ := ⟨id, id, id, id⟩
  trans _ _ _ h h' := ⟨h'.closed ∘ h.closed, h'.shut ∘ h.shut, h'.ended ∘ h.ended,
    h'.announced ∘ h.announced⟩

/-- A change of the socket behind the closed write side. -/
structure Late (s s' : Stream) : Prop where
  readShutdown : s'.readShutdown = s.readShutdown
  readShutdownAt : s'.readShutdownAt = s.readShutdownAt
  writeOpen : s'.writeOpen = s.writeOpen
  write : (s.writeShutdown = true ↔ s.writeShutdownAt ≠ none) →
    (s'.writeShutdown = true ↔ s'.writeShutdownAt ≠ none)

section Steps

variable {w : World Stream π} {s : Stream} {x : Io} {f : FrameId}

theorem Sparing.late (h : Sparing w.socket s) : Late w.socket s where
  readShutdown := h.readShutdown
  readShutdownAt := h.readShutdownAt
  writeOpen := h.writeOpen
  write hw := by rwa [h.writeShutdown, h.writeShutdownAt]

theorem late_writeShut (now : ℚ) (s : Stream) :
    Late s { s with writeShutdownAt := some now, writeShutdown := true } :=
  ⟨rfl, rfl, rfl, fun _ => by simp⟩

theorem ShutInv.sparing (h : ShutInv w) (hs : Sparing w.socket s) :
    ShutInv (w.setSocket s) ∧ Closes w (w.setSocket s) where
  left := by
    constructor
    case stamped => exact (hs.readShutdownAt ▸ h.stamped :)
    case failed => exact fun hf => ⟨hs.readShutdown.trans (h.failed hf).1,
      hs.writeOpen.trans (h.failed hf).2⟩
    case ended => exact fun he => hs.readShutdown.trans (h.ended he)
    case write => exact hs.late.write h.write
    case shutting =>
      exact fun he => hs.writeOpen.trans (h.shutting (he.imp hs.shutWrite hs.shutRead))
    case shut =>
      intro hw
      exact (h.shut (hs.writeShutdown.symm.trans hw)).imp hs.writeOpen.trans hs.readShutdown.trans
  right := ⟨hs.writeOpen.trans, hs.readShutdown.trans, id,
    fun ha hr => ha (hs.readShutdown.symm.trans hr)⟩

/-- Behind the closed write side its flag and the TLS events are free. -/
theorem ShutInv.late (h : ShutInv w) (ho : w.socket.writeOpen = false) (hs : Late w.socket s) :
    (ShutInv (w.setSocket s) ∧ (w.setSocket s).socket.writeOpen = false) ∧
      Closes w (w.setSocket s) where
  left := by
    have ho' : s.writeOpen = false := hs.writeOpen.trans ho
    refine ⟨⟨?_, ?_, ?_, hs.write h.write, fun _ => ho', fun _ => Or.inl ho'⟩, ho'⟩
    · exact (hs.readShutdownAt ▸ h.stamped :)
    · exact fun hf => ⟨hs.readShutdown.trans (h.failed hf).1, ho'⟩
    · exact fun he => hs.readShutdown.trans (h.ended he)
  right := ⟨hs.writeOpen.trans, hs.readShutdown.trans, id,
    fun ha hr => ha (hs.readShutdown.symm.trans hr)⟩

theorem failed_of_not_final (hx : ¬Final x) : Failed (w.record x) ↔ Failed w :=
  failed_record fun hr => hx (by cases x <;> first | exact hr | exact trivial)

theorem ended_of_not_final (hx : ¬Final x) : Ended (w.record x) ↔ Ended w :=
  ended_record (by cases x <;> first | exact trivial | exact hx trivial)

theorem ShutInv.record (h : ShutInv w) (hx : ¬Final x) :
    ShutInv (w.record x) ∧ Closes w (w.record x) where
  left := by
    have hf := failed_of_not_final (w := w) hx
    have he := ended_of_not_final (w := w) hx
    exact ⟨h.stamped.trans hf.symm, h.failed ∘ hf.mp, h.ended ∘ he.mp, h.write, h.shutting, h.shut⟩
  right := ⟨id, id, (ended_of_not_final hx).mpr, fun ha hr => (ha hr).imp
    (ended_of_not_final hx).mpr (failed_of_not_final hx).mpr⟩

theorem ShutInv.tick (h : ShutInv w) : ShutInv w.tick ∧ Closes w w.tick :=
  ⟨{ h with }, id, id, id, id⟩

theorem ShutInv.setFrame (h : ShutInv w) (f : FrameId) (y : Frame) :
    ShutInv (w.setFrame f y) ∧ Closes w (w.setFrame f y) := ⟨{ h with }, id, id, id, id⟩

theorem ShutInv.setOwner (h : ShutInv w) (f : FrameId) (r : Owner) :
    ShutInv (w.setOwner f r) ∧ Closes w (w.setOwner f r) := ⟨{ h with }, id, id, id, id⟩

theorem ShutInv.queued (h : ShutInv w) : ShutInv (queued w f) ∧ Closes w (queued w f) := by
  have hclose : w.socket.writeOpen = false → (Stream.queued w f).socket.writeOpen = false := by
    intro ho
    simp [Stream.queued, ho]
  have hx : ¬Final (.accepted f (w.heap f).type (w.heap f).pendingBytes) := id
  have hf : Failed (Stream.queued w f) ↔ Failed w := failed_of_not_final hx
  have he : Ended (Stream.queued w f) ↔ Ended w := ended_of_not_final hx
  constructor
  · constructor
    case stamped => exact h.stamped.trans hf.symm
    case failed => exact fun hq => ⟨(h.failed (hf.mp hq)).1, hclose (h.failed (hf.mp hq)).2⟩
    case ended => exact h.ended ∘ he.mp
    case write => exact h.write
    case shutting => exact hclose ∘ h.shutting
    case shut => exact fun hw => (h.shut hw).imp_left hclose
  · exact ⟨hclose, id, he.mpr, fun ha hr => (ha hr).imp he.mpr hf.mpr⟩

end Steps

section Functions

variable {env : Env} {d : Delegate π} {w : World Stream π} {f : FrameId}

/-- Every return of `m` has the invariant again, and undoes nothing. -/
abbrev Keeping {α : Type} (m : StreamM π α) : Prop := Preserves (fun _ => True) ShutInv Closes m

/-- As `Keeping`, while the write side is closed. -/
abbrev KeepingLate {α : Type} (m : StreamM π α) : Prop :=
  Preserves (fun _ => True) (fun w => ShutInv w ∧ w.socket.writeOpen = false) Closes m

theorem Keeping.late {α : Type} {m : StreamM π α} (hm : Keeping m) : KeepingLate m :=
  fun w ⟨h, ho⟩ => wp_mono (hm w h) fun _ _ ⟨h', k⟩ => ⟨⟨h', k.closed ho⟩, k⟩

theorem keepingLate_update {g : Stream → Stream} (hg : ∀ s, Late s (g s)) :
    KeepingLate (modifySocket (π := π) g) := fun w ⟨h, ho⟩ => h.late ho (hg w.socket)

theorem keeping_ask {α : Type} {q : ℕ → α} : Keeping (π := π) (ask q) := fun _ h => h.tick

/-- An error sets all flags and times, and closes the write side. -/
theorem keeping_error (hd : Keeping d.error) (e : Option Errno) (l : ℕ) :
    Keeping (Stream.error env d e l) := by
  have hwrite : ∀ s : Stream, Sparing s { s with writeWatcher := false } := fun _ =>
    ⟨rfl, rfl, rfl, rfl, rfl, id, id⟩
  have hread : ∀ s : Stream, Sparing s { s with readWatcher := false } := fun _ =>
    ⟨rfl, rfl, rfl, rfl, rfl, id, id⟩
  intro w h
  unfold Stream.error
  rw [wp_ite]
  refine ⟨fun _ => trivial, fun _ => ?_⟩
  rw [wp_bind, wp_ask, wp_bind, wp_modifySocket, wp_bind, wp_getSocket, wp_bind, wp_record]
  have hnoted : Failed ((w.tick.setSocket (failed (env.evNow w.clock) e l w.socket)).record
      (.error e w.socket.readFrame)) := ⟨.error e w.socket.readFrame, by simp, trivial⟩
  have h₁ : ShutInv ((w.tick.setSocket (failed (env.evNow w.clock) e l w.socket)).record
      (.error e w.socket.readFrame)) :=
    ⟨⟨fun _ => hnoted, fun _ => by simp [failed]⟩, fun _ => ⟨rfl, rfl⟩, fun _ => rfl,
      by simp [failed], fun _ => rfl, fun _ => Or.inl rfl⟩
  have k₁ : Closes w ((w.tick.setSocket (failed (env.evNow w.clock) e l w.socket)).record
      (.error e w.socket.readFrame)) :=
    ⟨fun _ => rfl, fun _ => rfl, (ended_record (x := .error e w.socket.readFrame) trivial).mpr,
      fun _ _ => Or.inr hnoted⟩
  have hrest : Keeping (π := π) (do
      d.error
      modifySocket fun s => { s with writeWatcher := false }
      modifySocket fun s => { s with readWatcher := false }
      record (.shutdown .SHUT_RDWR)) :=
    hd.bind fun _ => Preserves.bind (fun w h => h.sparing (hwrite w.socket)) fun _ =>
      Preserves.bind (fun w h => h.sparing (hread w.socket)) fun _ => fun w h => h.record id
  refine wp_mono (hrest _ h₁) ?_
  rintro _ w₂ ⟨h₂, k₂⟩
  exact ⟨h₂, trans_of Closes k₁ k₂⟩

theorem keepingLate_onSslSentShutdownEvent (hd : Keeping d.error) :
    KeepingLate (onSslSentShutdownEvent env d) := by
  have herr : ∀ e l, KeepingLate (Stream.error env d e l) := fun e l =>
    Keeping.late (keeping_error hd e l)
  have hask : ∀ {α : Type} (q : ℕ → α), KeepingLate (ask (σ := Stream) (π := π) q) := fun _ =>
    Keeping.late keeping_ask
  have hevents : ∀ (r : Finset ReadEvent) (b : Finset WriteEvent) (a b' : Bool) (s : Stream),
      Late s { s with readEvents := r, readWatcher := a, writeEvents := b, writeWatcher := b' } :=
    fun _ _ _ _ _ => ⟨rfl, rfl, rfl, id⟩
  have hwantRead : KeepingLate (modifySocket (π := π) (readSetEvent {SSL_SHUTDOWN_WANT_READ})) :=
    keepingLate_update fun s => readSetEvent_eq _ s ▸ ⟨rfl, rfl, rfl, id⟩
  have hunsetRead : KeepingLate (modifySocket (π := π) (readUnsetEvent {SSL_SHUTDOWN_WANT_READ})) :=
    keepingLate_update fun s => readUnsetEvent_eq _ s ▸ ⟨rfl, rfl, rfl, id⟩
  have hwantWrite : KeepingLate (modifySocket (π := π) (writeSetEvent {SSL_SHUTDOWN_WANT_WRITE})) :=
    keepingLate_update fun s => writeSetEvent_eq _ s ▸ ⟨rfl, rfl, rfl, id⟩
  have hunsetWrite :
      KeepingLate (modifySocket (π := π) (writeUnsetEvent {SSL_SHUTDOWN_WANT_WRITE})) :=
    keepingLate_update fun s => writeUnsetEvent_eq _ s ▸ ⟨rfl, rfl, rfl, id⟩
  have hstatus : KeepingLate (modifySocket (π := π) fun s => { s with sslStatus := 0 }) :=
    keepingLate_update fun _ => ⟨rfl, rfl, rfl, id⟩
  have hshut : ∀ now, KeepingLate (modifySocket (π := π) fun s =>
      { s with writeShutdownAt := some now, writeShutdown := true }) :=
    fun now => keepingLate_update (late_writeShut now)
  have hprotocol : ∀ x, KeepingLate (sslProtocolError env d x) := fun x =>
    .ite _ (fun _ => preserves_throw) fun _ => herr none x.peek
  unfold onSslSentShutdownEvent
  refine preserves_readSocket.bind fun s => .ite _ (fun _ => preserves_throw) fun _ =>
    .ite _ (fun _ => preserves_throw) fun _ => (hask _).bind fun sent =>
    .ite _ (fun _ => .when _ fun _ => (hask _).bind hshut) fun _ => (hask _).bind fun r => ?_
  cases r with
  | sent =>
    exact (hask _).bind fun now => (hshut now).bind fun _ => hunsetWrite.bind fun _ => hwantRead
  | completed =>
    exact hstatus.bind fun _ => hunsetWrite.bind fun _ => hwantRead.bind fun _ =>
      (hask _).bind fun now => (hshut now).bind fun _ =>
        Keeping.late fun w h => h.record id
  | failed x =>
    cases hx : x.error with
    | SSL_ERROR_WANT_READ => simpa only [hx] using hwantRead.bind fun _ => hunsetWrite
    | SSL_ERROR_WANT_WRITE => simpa only [hx] using hunsetRead.bind fun _ => hwantWrite
    | SSL_ERROR_SSL => simpa only [hx] using hprotocol x
    | _ => simpa only [hx] using herr (errnoOrReset x) 0

theorem keeping_writeEndOfStream (hd : Keeping d.error)
    (hrelease : Keeping (releaseFrame env d f 'W')) : Keeping (writeEndOfStream env d f) := by
  have hnext : ∀ (next : Option FrameId) (s : Stream), Sparing s { s with writeFrames := next } :=
    fun _ _ => ⟨rfl, rfl, rfl, rfl, rfl, id, id⟩
  have hplain : KeepingLate (π := π) (do
      let now ← ask env.evNow
      modifySocket fun s => { s with writeShutdownAt := some now, writeShutdown := true }
      record (.shutdown .SHUT_WR)) :=
    (Keeping.late keeping_ask).bind fun now => (keepingLate_update (late_writeShut now)).bind
      fun _ => Keeping.late fun w h => h.record id
  unfold writeEndOfStream
  refine preserves_getFrame fun x _ => Preserves.bind (fun w h => h.sparing (hnext x.next w.socket))
    fun _ => hrelease.bind fun _ => preserves_getSocket_bind fun w h => ?_
  rw [wp_ite]
  refine ⟨fun _ => trivial, fun ho => ?_⟩
  rw [Bool.not_eq_true] at ho
  have hlate : KeepingLate (π := π) (do
      modifySocket (writeUnsetEvent {WRITE_WANT_WRITE})
      if w.socket.ssl then onSslSentShutdownEvent env d
      else
        let now ← ask env.evNow
        modifySocket fun s => { s with writeShutdownAt := some now, writeShutdown := true }
        record (.shutdown .SHUT_WR)) :=
    (keepingLate_update fun s => writeUnsetEvent_eq _ s ▸ ⟨rfl, rfl, rfl, id⟩).bind fun _ =>
      .ite _ (fun _ => keepingLate_onSslSentShutdownEvent hd) fun _ => hplain
  refine wp_mono (hlate w ⟨h, ho⟩) ?_
  rintro _ w' ⟨h', k⟩
  exact ⟨h'.1, k⟩

theorem singleSteps_shut (hd : d.Preserves (fun _ => True) ShutInv Closes) :
    SingleSteps d ShutInv Closes where
  step _ _ h hs := h.sparing hs
  tick _ h := h.tick
  record _ _ h hx := h.record hx
  setFrame _ f y h := h.setFrame f y
  setOwner _ f r h := h.setOwner f r
  callbacks := hd

theorem parts_shut (hd : d.Preserves (fun _ => True) ShutInv Closes) :
    Parts env d ShutInv Closes where
  toSingleSteps := singleSteps_shut hd
  enqueueFrame f w h := by
    rw [wp_enqueueFrame]
    exact h.queued
  fail := keeping_error hd.error
  writeEndOfStream f :=
    keeping_writeEndOfStream hd.error ((singleSteps_shut hd).releaseFrame f 'W')

/-- A read shutdown announces its end. The time of the read side stays as it was. -/
theorem readShutdownNow_shut (hd : d.Preserves (fun _ => True) ShutInv Closes) (h : ShutInv w) :
    wp (fun _ => True) (readShutdownNow env d)
      (fun _ w' => ShutInv w' ∧ Closes w w' ∧ Ended w') w := by
  have hp : Parts env d ShutInv Closes := parts_shut hd
  unfold readShutdownNow
  rw [wp_bind]
  refine wp_mono (((hp.unsetRead _).bind fun _ => preserves_pure true) w h) ?_
  rintro _ w₁ ⟨h₁, k₁⟩
  rw [wp_bind, wp_modifySocket, wp_bind]
  have h₂ : ShutInv (w₁.setSocket { w₁.socket with readShutdown := true }) :=
    ⟨h₁.stamped, fun hf => ⟨rfl, (h₁.failed hf).2⟩, fun _ => rfl, h₁.write, h₁.shutting,
      fun _ => Or.inr rfl⟩
  refine wp_mono (hp.uplinkPartial _ h₂) ?_
  rintro _ w₃ ⟨h₃, k₃⟩
  rw [wp_bind]
  refine wp_mono (hp.endOfStreamFrame w₃ h₃) ?_
  rintro eos w₄ ⟨h₄, k₄⟩
  rw [wp_bind, wp_record]
  have hended : Ended (w₄.record (.readEnd eos)) := by simp [Ended, ends]
  have h₅ : ShutInv (w₄.record (.readEnd eos)) :=
    have hf : Failed (w₄.record (.readEnd eos)) ↔ Failed w₄ := failed_record id
    ⟨h₄.stamped.trans hf.symm, h₄.failed ∘ hf.mp, fun _ => k₄.shut (k₃.shut rfl), h₄.write,
      h₄.shutting, h₄.shut⟩
  have hrest {m : StreamM π Unit} (hm : Keeping m) :
      wp (fun _ => True) m (fun _ w' => ShutInv w' ∧ Closes w w' ∧ Ended w')
        (w₄.record (.readEnd eos)) := by
    refine wp_mono (hm _ h₅) ?_
    rintro _ w₆ ⟨h₆, k₆⟩
    refine ⟨h₆, ?_, k₆.ended hended⟩
    exact ⟨k₆.closed ∘ k₄.closed ∘ k₃.closed ∘ k₁.closed, fun _ => h₆.ended (k₆.ended hended),
      fun _ => k₆.ended hended, fun _ _ => Or.inl (k₆.ended hended)⟩
  cases eos with
  | none => exact hrest hp.pauseNoframes
  | some f => exact hrest (hp.deliverOrRelease f false)

/-- An abort shuts the write side behind the read side, whether it is open or not. -/
theorem keeping_cntlAbort (hd : d.Preserves (fun _ => True) ShutInv Closes) :
    Keeping (cntlAbort env d) := by
  intro w h
  have hp : Parts env d ShutInv Closes := parts_shut hd
  unfold cntlAbort
  rw [wp_bind]
  refine wp_mono (readShutdownNow_shut hd h) ?_
  rintro _ w₁ ⟨h₁, k₁, he₁⟩
  rw [wp_bind]
  refine wp_mono (hp.unsetWrite _ w₁ h₁) ?_
  rintro _ w₂ ⟨h₂, k₂⟩
  rw [wp_bind, wp_ask, wp_bind, wp_modifySocket]
  have h₃ : ShutInv (w₂.tick.setSocket { w₂.socket with
      writeShutdownAt := some (env.evNow w₂.clock), writeShutdown := true }) :=
    ⟨h₂.stamped, h₂.failed, h₂.ended, by simp, h₂.shutting, fun _ =>
      Or.inr (h₂.ended (k₂.ended he₁))⟩
  obtain ⟨h₄, k₄⟩ := h₃.record (x := .shutdown .SHUT_WR) id
  have k₃ : Closes w₂ (w₂.tick.setSocket { w₂.socket with
      writeShutdownAt := some (env.evNow w₂.clock), writeShutdown := true }) := ⟨id, id, id, id⟩
  exact ⟨h₄, trans_of Closes k₁ (trans_of Closes k₂ (trans_of Closes k₃ k₄))⟩

theorem whole_shut (hd : d.Preserves (fun _ => True) ShutInv Closes) :
    Whole env d ShutInv Closes where
  toParts := parts_shut hd
  readShutdownNow _ h := wp_mono (readShutdownNow_shut hd h) fun _ _ ⟨h', k, _⟩ => ⟨h', k⟩
  cntlAbort := keeping_cntlAbort hd
  onSslSentShutdownEvent w h he :=
    wp_mono (keepingLate_onSslSentShutdownEvent hd.error w ⟨h, h.shutting he⟩)
      fun _ _ ⟨h', k⟩ => ⟨h'.1, k⟩

end Functions

section Runs

variable {env : Env} {w : World Stream π}

theorem shutInv_opened (o : Opening) (proto : π) (data : FrameId → ℕ → UInt8) :
    ShutInv (World.init (opened o) proto data) ∧ Announced (World.init (opened o) proto data) := by
  refine ⟨⟨?_, ?_, ?_, ?_, ?_, ?_⟩, ?_⟩
  all_goals
    cases o <;> simp [World.init, opened, writeSetEvent_eq, readSetEvent_eq, Stream.init, Failed,
      Ended, ends, Announced]

/-- The flags agree exactly when the stream has failed or reading has not ended. -/
theorem ShutInv.consistent_iff (h : ShutInv w) (ha : Announced w) :
    Consistent w.socket ↔ Failed w ∨ ¬Ended w := by
  constructor
  · intro hc
    by_cases he : Ended w
    · exact Or.inl (h.stamped.mp (hc.read.mp (h.ended he)))
    · exact Or.inr he
  · rintro (hf | he)
    · obtain ⟨hr, ho⟩ := h.failed hf
      exact ⟨fun _ => ho, ⟨fun _ => h.stamped.mpr hf, fun _ => hr⟩, h.write⟩
    · by_cases hf : Failed w
      · obtain ⟨hr, ho⟩ := h.failed hf
        exact ⟨fun _ => ho, ⟨fun _ => h.stamped.mpr hf, fun _ => hr⟩, h.write⟩
      · have hr : w.socket.readShutdown = false := by
          by_contra hr
          exact (ha (by simpa using hr)).elim he hf
        exact ⟨fun hw => (h.shut hw).resolve_right (by simp [hr]),
          ⟨fun h' => by simp [hr] at h', fun hn => absurd (h.stamped.mp hn) hf⟩, h.write⟩

/-- After every run the flags and times of the stream agree exactly when an error was reported, or
reading has not ended so far. -/
theorem run_consistent_iff (script : Script) (n : ℕ) (o : Opening) (proto : π)
    (data : FrameId → ℕ → UInt8) (events : List Event) :
    wp (fun _ => True) (run env (scripted env (fun _ _ => True) script n) (fun _ _ => True) events)
      (fun _ w => Consistent w.socket ↔ Failed w ∨ ¬Ended w)
      (World.init (opened o) proto data) := by
  obtain ⟨h, ha⟩ := shutInv_opened o proto data
  refine wp_mono (run_keeps (fun _ => whole_shut) (fun _ h => h.tick)
    (fun _ f x h => h.setFrame f x)
    script n events _ h) ?_
  rintro _ w ⟨h', k⟩
  exact h'.consistent_iff (k.announced ha)

/-- A stream whose write side is closed refuses every frame. -/
theorem write_refused {d : Delegate π} {f : FrameId} (h : w.socket.writeOpen = false) :
    Stream.write env d f w = .ok (false, w) := by
  change (if w.socket.writeOpen = false then _ else _ : StreamM π Bool) w = _
  rw [if_pos h]
  rfl

end Runs

section Examples

-- the run below a closed precondition is evaluated by the kernel alone
attribute [local irreducible] wp

/-- An abort leaves the write side open, and the read side without a time. -/
theorem not_run_consistent_all : ¬∀ (env : Env) (script : Script) (n : ℕ) (o : Opening)
    (data : FrameId → ℕ → UInt8) (events : List Event),
    wp (fun _ => True) (run (π := Unit) env (scripted env (fun _ _ => True) script n)
      (fun _ _ => True) events) (fun _ w => Consistent w.socket)
      (World.init (opened o) () data) := by
  intro h
  obtain ⟨_, w, hw, hs⟩ := wp_observe (h idleEnv idleScript 1 .accept (fun _ _ => 0)
      [.call (.cntl {.ABORT})])
    (g := fun r => (r.2.socket.readShutdown, r.2.socket.readShutdownAt.isSome,
      r.2.socket.writeShutdown, r.2.socket.writeOpen))
    (b := (true, false, true, true)) (by decide +kernel)
  simp only [Prod.mk.injEq] at hs
  have ho := hw.closed hs.2.2.1
  simp [hs.2.2.2] at ho

end Examples

end Stream

end FrameTransporter
