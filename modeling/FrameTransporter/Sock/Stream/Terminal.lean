import FrameTransporter.Sock.Stream.Discipline

/-! # A stream error is terminal

An error shuts both sides of a plain stream and stops its watchers. Loops that run
at that moment know nothing of it: after an error that a callback raised, they go
on to receive or to send. In every run in which the sends of callbacks do not fail
for good, nothing is received, sent or reported after an error.
-/

namespace FrameTransporter

open Hoare

namespace Stream

open ReadEvent WriteEvent

variable {π : Type}

/-- What an error puts an end to. -/
def Transfers : Io → Prop
  | .recv .. | .send _ | .error .. => True
  | _ => False

/-- An error was reported. -/
def Reported : Io → Prop
  | .error .. => True
  | _ => False

instance : DecidablePred Reported
  | .error .. => inferInstanceAs (Decidable True)
  | .recv .. | .send _ | .shutdown _ | .setSslState _ | .obtained _ | .accepted .. | .offer ..
  | .read .. | .connected | .readEnd _ | .release .. | .frameReturn _ =>
    inferInstanceAs (Decidable False)

/-- The stream has failed. -/
def Failed (w : World Stream π) : Prop := ∃ x ∈ w.trace, Reported x

instance (w : World Stream π) : Decidable (Failed w) :=
  inferInstanceAs (Decidable (∃ x ∈ w.trace, Reported x))

/-- The frames other than end-of-stream frames that the delegate was given. -/
def dataOffers (t : List Io) : List FrameId := t.filterMap fun
  | .offer f type => if type = .endOfStream then none else some f
  | _ => none

/-- After an error nothing is received, sent or reported, only the frame that was being filled is
passed on, and the error stays the one that was reported. -/
def Terminal (w : World Stream π) : Prop := ∀ pre e f post, w.trace = pre ++ .error e f :: post →
  (∀ x ∈ post, ¬Transfers x) ∧ (dataOffers post).Sublist f.toList ∧ w.socket.sysErrno = e

/-- Nothing starts again in a failed socket. -/
structure Calmer (s s' : Stream) : Prop where
  connecting : s'.connecting = s.connecting
  readWatcher : s'.readWatcher = true → s.readWatcher = true
  writeWatcher : s'.writeWatcher = true → s.writeWatcher = true
  write : WRITE_WANT_WRITE ∈ s'.writeEvents → WRITE_WANT_WRITE ∈ s.writeEvents

/-- The socket behind an error `e` while `f` was being filled, where `post` happened since. -/
structure Over (e : Option Errno) (f : Option FrameId) (post : List Io) (s : Stream) : Prop where
  quiet : ∀ x ∈ post, ¬Transfers x
  offers : (dataOffers post ++ s.readFrame.toList).Sublist f.toList
  sysErrno : s.sysErrno = e
  writeOpen : s.writeOpen = false
  readShutdown : s.readShutdown = true

/-- The invariant of a plain stream with the given opening. -/
structure TerminalInv (o : Opening) (w : World Stream π) : Prop where
  ssl : w.socket.ssl = false
  accepted : o ≠ .connect →
    w.socket.connecting = false ∧ CONNECT_WANT_WRITE ∉ w.socket.writeEvents
  past : ∀ pre e f post, w.trace = pre ++ .error e f :: post → Over e f post w.socket

/-- What a callback does: it raises no error, and starts nothing after one. -/
structure Rests (w w' : World Stream π) : Prop where
  failed : Failed w' ↔ Failed w
  connecting : w'.socket.connecting = w.socket.connecting
  calmer : Failed w → Calmer w.socket w'.socket

/-- What a handler does: when it fails, both watchers are stopped. Under `c` it does not fail while
a connected stream waits to write. -/
structure Ran (c : Prop) (w w' : World Stream π) : Prop where
  failed : Failed w → Failed w'
  calmer : Failed w → Calmer w.socket w'.socket
  stopped : ¬Failed w → Failed w' →
    w'.socket.readWatcher = false ∧ w'.socket.writeWatcher = false
  write : c → ¬Failed w → Failed w' → w'.socket.connecting = false →
    WRITE_WANT_WRITE ∉ w'.socket.writeEvents

section Relations

variable {c : Prop} {w w' : World Stream π} {s s' s'' : Stream}

theorem Calmer.refl (s : Stream) : Calmer s s := ⟨rfl, id, id, id⟩

theorem Calmer.trans (h : Calmer s s') (h' : Calmer s' s'') : Calmer s s'' where
  connecting := h'.connecting.trans h.connecting
  readWatcher := h.readWatcher ∘ h'.readWatcher
  writeWatcher := h.writeWatcher ∘ h'.writeWatcher
  write := h.write ∘ h'.write

instance : IsPreorder (World Stream π) Rests where
  refl _ := ⟨Iff.rfl, rfl, fun _ => Calmer.refl _⟩
  trans _ _ _ h h' := ⟨h'.failed.trans h.failed, h'.connecting.trans h.connecting,
    fun hw => (h.calmer hw).trans (h'.calmer (h.failed.mpr hw))⟩

instance : IsPreorder (World Stream π) (Ran c) where
  refl _ := ⟨id, fun _ => Calmer.refl _, fun hn h => absurd h hn, fun _ hn h => absurd h hn⟩
  trans w w' w'' h h' := by
    refine ⟨h'.failed ∘ h.failed, fun hw => (h.calmer hw).trans (h'.calmer (h.failed hw)),
      fun hn hf => ?_, fun hp hn hf hc => ?_⟩
    · by_cases hw : Failed w'
      · obtain ⟨hr, hs⟩ := h.stopped hn hw
        have hcalm := h'.calmer hw
        exact ⟨Bool.not_eq_true _ ▸ fun ht => by simp [hcalm.readWatcher ht] at hr,
          Bool.not_eq_true _ ▸ fun ht => by simp [hcalm.writeWatcher ht] at hs⟩
      · exact h'.stopped hw hf
    · by_cases hw : Failed w'
      · have hcalm := h'.calmer hw
        exact fun he => h.write hp hn hw (hcalm.connecting.symm.trans hc) (hcalm.write he)
      · exact h'.write hp hw hf hc

theorem Rests.ran (h : Rests w w') : Ran c w w' :=
  ⟨h.failed.mpr, h.calmer, fun hn hf => absurd (h.failed.mp hf) hn,
    fun _ hn hf => absurd (h.failed.mp hf) hn⟩

end Relations

section Steps

variable {o : Opening} {w w' : World Stream π} {s s' : Stream} {e : Option Errno}
  {f : Option FrameId} {post : List Io}

/-- A change of the socket that any code may make. -/
structure Steady (s s' : Stream) : Prop where
  calmer : s.readShutdown = true → Calmer s s'
  ssl : s'.ssl = s.ssl
  connecting : s'.connecting = s.connecting
  connect : CONNECT_WANT_WRITE ∈ s'.writeEvents → CONNECT_WANT_WRITE ∈ s.writeEvents
  sysErrno : s'.sysErrno = s.sysErrno
  writeOpen : s.writeOpen = false → s'.writeOpen = false
  readShutdown : s.readShutdown = true → s'.readShutdown = true
  readFrame : s'.readFrame = s.readFrame ∨ s'.readFrame = none

/-- A change of the socket that is made before an error only. -/
structure Plainly (s s' : Stream) : Prop where
  ssl : s'.ssl = s.ssl
  connecting : s'.connecting = s.connecting
  connect : CONNECT_WANT_WRITE ∈ s'.writeEvents → CONNECT_WANT_WRITE ∈ s.writeEvents

theorem Over.steady (h : Over e f post s) (hs : Steady s s') : Over e f post s' := by
  refine { h with
    offers := ?_
    sysErrno := hs.sysErrno.trans h.sysErrno
    writeOpen := hs.writeOpen h.writeOpen
    readShutdown := hs.readShutdown h.readShutdown }
  rcases hs.readFrame with he | he
  · exact he ▸ h.offers
  · rw [he, Option.toList_none, List.append_nil]
    exact (List.sublist_append_left _ _).trans h.offers

theorem failed_of_split {pre : List Io} (ht : w.trace = pre ++ .error e f :: post) : Failed w :=
  ⟨.error e f, by simp [ht], trivial⟩

theorem Failed.split (hf : Failed w) : ∃ pre e f post, w.trace = pre ++ .error e f :: post := by
  obtain ⟨x, hx, hr⟩ := hf
  cases x with
  | error e f =>
    obtain ⟨pre, post, ht⟩ := List.append_of_mem hx
    exact ⟨pre, e, f, post, ht⟩
  | _ => exact hr.elim

/-- Both sides of a failed stream are shut. -/
theorem TerminalInv.shut (h : TerminalInv o w) (hf : Failed w) :
    w.socket.readShutdown = true ∧ w.socket.writeOpen = false := by
  obtain ⟨pre, e, f, post, ht⟩ := hf.split
  have hpast := h.past pre e f post ht
  exact ⟨hpast.readShutdown, hpast.writeOpen⟩

theorem TerminalInv.steady (h : TerminalInv o w) (hs : Steady w.socket s) :
    TerminalInv o (w.setSocket s) ∧ Rests w (w.setSocket s) where
  left := by
    refine ⟨hs.ssl.trans h.ssl, fun ho => ?_,
      fun pre e f post ht => (h.past pre e f post ht).steady hs⟩
    obtain ⟨hc, hw⟩ := h.accepted ho
    exact ⟨hs.connecting.trans hc, hw ∘ hs.connect⟩
  right := ⟨Iff.rfl, hs.connecting, fun hf => hs.calmer (h.shut hf).1⟩

/-- Before an error the socket may change in other ways, too. -/
theorem TerminalInv.plainly (h : TerminalInv o w) (hn : ¬Failed w) (hs : Plainly w.socket s) :
    TerminalInv o (w.setSocket s) ∧ Rests w (w.setSocket s) where
  left := by
    refine ⟨hs.ssl.trans h.ssl, fun ho => ?_, fun pre e f post ht => absurd (failed_of_split ht) hn⟩
    obtain ⟨hc, hw⟩ := h.accepted ho
    exact ⟨hs.connecting.trans hc, hw ∘ hs.connect⟩
  right := ⟨Iff.rfl, hs.connecting, fun hf => absurd hf hn⟩

theorem TerminalInv.tick (h : TerminalInv o w) : TerminalInv o w.tick ∧ Rests w w.tick :=
  ⟨⟨h.ssl, h.accepted, h.past⟩, Iff.rfl, rfl, fun _ => Calmer.refl _⟩

theorem TerminalInv.setFrame (h : TerminalInv o w) (g : FrameId) (x : Frame) :
    TerminalInv o (w.setFrame g x) ∧ Rests w (w.setFrame g x) :=
  ⟨⟨h.ssl, h.accepted, h.past⟩, Iff.rfl, rfl, fun _ => Calmer.refl _⟩

theorem TerminalInv.setOwner (h : TerminalInv o w) (g : FrameId) (r : Owner) :
    TerminalInv o (w.setOwner g r) ∧ Rests w (w.setOwner g r) :=
  ⟨⟨h.ssl, h.accepted, h.past⟩, Iff.rfl, rfl, fun _ => Calmer.refl _⟩

theorem failed_record {x : Io} (hx : ¬Reported x) : Failed (w.record x) ↔ Failed w := by
  simp [Failed, hx]

theorem dataOffers_append (t t' : List Io) :
    dataOffers (t ++ t') = dataOffers t ++ dataOffers t' := List.filterMap_append

theorem dataOffers_offer (f : FrameId) (type : FrameType) :
    (dataOffers [.offer f type]).Sublist [f] := by
  by_cases ht : type = .endOfStream
  · simp [dataOffers, ht]
  · simp [dataOffers, ht]

/-- A trace that goes on behind an error was the trace of a failed stream. -/
theorem split_record {x : Io} {pre : List Io} (hx : ¬Reported x)
    (ht : (w.record x).trace = pre ++ .error e f :: post) :
    ∃ post', post = post' ++ [x] ∧ w.trace = pre ++ .error e f :: post' := by
  rcases concat_eq_split ht with ⟨-, rfl, -⟩ | hsplit
  · exact absurd trivial hx
  · exact hsplit

/-- What is recorded after an error moves nothing, and hands over the frame that was being filled
at most. -/
theorem TerminalInv.record {x : Io} (h : TerminalInv o w) (hx : ¬Reported x)
    (hq : Failed w → ¬Transfers x)
    (hd : ∀ pre e f post, w.trace = pre ++ .error e f :: post →
      (dataOffers (post ++ [x]) ++ w.socket.readFrame.toList).Sublist f.toList) :
    TerminalInv o (w.record x) ∧ Rests w (w.record x) where
  left := by
    refine ⟨h.ssl, h.accepted, fun pre e f post ht => ?_⟩
    obtain ⟨post', rfl, hw⟩ := split_record hx ht
    have hpast := h.past pre e f post' hw
    refine { hpast with quiet := fun y hy => ?_, offers := hd pre e f post' hw }
    rcases List.mem_append.mp hy with hy | hy
    · exact hpast.quiet y hy
    · rw [List.mem_singleton.mp hy]
      exact hq (failed_of_split hw)
  right := ⟨failed_record hx, rfl, fun _ => Calmer.refl _⟩

/-- As `TerminalInv.record`, for what moves no data frame. -/
theorem TerminalInv.recordSilent {x : Io} (h : TerminalInv o w) (hx : ¬Transfers x)
    (hr : ¬Reported x) (hd : dataOffers [x] = []) :
    TerminalInv o (w.record x) ∧ Rests w (w.record x) :=
  h.record hr (fun _ => hx) fun pre e f post ht => by
    rw [dataOffers_append, hd, List.append_nil]
    exact (h.past pre e f post ht).offers

/-- As `TerminalInv.record`, for a stream that has not failed. -/
theorem TerminalInv.recordBefore {x : Io} (h : TerminalInv o w) (hn : ¬Failed w)
    (hr : ¬Reported x) : TerminalInv o (w.record x) ∧ Rests w (w.record x) :=
  h.record hr (fun hf => absurd hf hn) fun _ _ _ _ ht => absurd (failed_of_split ht) hn

theorem steady_readSetEvent (a : Finset ReadEvent) (s : Stream) : Steady s (readSetEvent a s) := by
  rw [readSetEvent_eq]
  refine ⟨fun hs => ⟨rfl, fun hw => ?_, id, id⟩, rfl, rfl, id, rfl, id, id, Or.inl rfl⟩
  rwa [if_neg fun hc => by simp [hs] at hc] at hw

theorem steady_readUnsetEvent (a : Finset ReadEvent) (s : Stream) :
    Steady s (readUnsetEvent a s) := by
  rw [readUnsetEvent_eq]
  refine ⟨fun _ => ⟨rfl, fun hw => ?_, id, id⟩, rfl, rfl, id, rfl, id, id, Or.inl rfl⟩
  dsimp only at hw
  split at hw
  · cases hw
  · exact hw

theorem steady_writeUnsetEvent (a : Finset WriteEvent) (s : Stream) :
    Steady s (writeUnsetEvent a s) := by
  have hsub : ∀ b, b ∈ s.writeEvents \ a → b ∈ s.writeEvents := fun b hb =>
    (Finset.mem_sdiff.mp hb).1
  rw [writeUnsetEvent_eq]
  refine ⟨fun _ => ⟨rfl, id, fun hw => ?_, hsub _⟩, rfl, rfl, hsub _, rfl, id, id, Or.inl rfl⟩
  dsimp only at hw
  split at hw
  · cases hw
  · exact hw

theorem Steady.trans {s''} (h : Steady s s') (h' : Steady s' s'') : Steady s s'' where
  calmer hs := (h.calmer hs).trans (h'.calmer (h.readShutdown hs))
  ssl := h'.ssl.trans h.ssl
  connecting := h'.connecting.trans h.connecting
  connect := h.connect ∘ h'.connect
  sysErrno := h'.sysErrno.trans h.sysErrno
  writeOpen := h'.writeOpen ∘ h.writeOpen
  readShutdown := h'.readShutdown ∘ h.readShutdown
  readFrame := h'.readFrame.elim (fun he => he ▸ h.readFrame) Or.inr

theorem steady_paused (s : Stream) : Steady s (paused s) := by
  have hl : Steady s { s with readPauseLevel := s.readPauseLevel + 1 } :=
    ⟨fun _ => ⟨rfl, id, id, id⟩, rfl, rfl, id, rfl, id, id, Or.inl rfl⟩
  unfold paused
  split
  · exact hl.trans (steady_readUnsetEvent _ _)
  · exact hl

theorem steady_resumed (s : Stream) : Steady s (resumed s) := by
  have hl : Steady s { s with readPauseLevel := s.readPauseLevel - 1 } :=
    ⟨fun _ => ⟨rfl, id, id, id⟩, rfl, rfl, id, rfl, id, id, Or.inl rfl⟩
  unfold resumed
  split
  · exact hl.trans (steady_readSetEvent _ _)
  · exact hl

theorem steady_detach (s : Stream) : Steady s { s with readFrame := none } :=
  ⟨fun _ => ⟨rfl, id, id, id⟩, rfl, rfl, id, rfl, id, id, Or.inr rfl⟩

theorem plainly_writeSetEvent (s : Stream) :
    Plainly s (writeSetEvent {WRITE_WANT_WRITE} s) := by
  rw [writeSetEvent_eq]
  exact ⟨rfl, rfl, fun hm => by simpa using hm⟩

theorem plainly_awaitWrite (s : Stream) : Plainly s (awaitWrite s) := by
  unfold awaitWrite
  rw [writeSetEvent_eq]
  exact ⟨rfl, rfl, fun hm => by simpa using hm⟩

end Steps

section Functions

variable {o : Opening} {env : Env} {d : Delegate π} {w : World Stream π} {f : FrameId}

/-- Every return of `m` has the invariant again, and rests. -/
abbrev Resting {α : Type} (o : Opening) (m : StreamM π α) : Prop :=
  Preserves (fun _ => True) (TerminalInv o) Rests m

/-- The delegate rests in every callback. -/
abbrev DelegateRests (o : Opening) (d : Delegate π) : Prop :=
  d.Preserves (fun _ => True) (TerminalInv o) Rests

theorem resting_steady {g : Stream → Stream} (hg : ∀ s, Steady s (g s)) :
    Resting (π := π) o (modifySocket g) := fun w h => h.steady (hg w.socket)

theorem resting_ask {α : Type} {q : ℕ → α} : Resting (π := π) o (ask q) := fun _ h => h.tick

theorem resting_getSocket : Resting (π := π) o getSocket := fun w h => ⟨h, refl_of Rests w⟩

theorem resting_getFrame (f : FrameId) : Resting (π := π) o (getFrame f) :=
  fun w h => ⟨h, refl_of Rests w⟩

theorem resting_setFrame (f : FrameId) (x : Frame) : Resting (π := π) o (setFrame f x) :=
  fun _ h => h.setFrame f x

theorem resting_setOwner (f : FrameId) (r : Owner) : Resting (π := π) o (setOwner f r) :=
  fun _ h => h.setOwner f r

theorem resting_record {x : Io} (hx : ¬Transfers x) (hr : ¬Reported x) (hd : dataOffers [x] = []) :
    Resting (π := π) o (FrameTransporter.record x) := fun _ h => h.recordSilent hx hr hd

theorem resting_liftM {α : Type} (r : Except Fault α) : Resting (π := π) o (liftM r) := by
  cases r with
  | error e => exact fun _ _ => trivial
  | ok a => exact preserves_pure a

theorem resting_frameReturn (ctx : Context) (f : FrameId) :
    Resting (π := π) o (FrameTransporter.frameReturn ctx f) := by
  unfold FrameTransporter.frameReturn
  refine (resting_getFrame f).bind fun x => ?_
  refine .ite _ (fun _ _ _ => trivial) fun _ => .ite _ (fun _ _ _ => trivial) fun _ =>
    .ite _ (fun _ _ _ => trivial) fun _ => ?_
  exact resting_ask.bind fun _ => (resting_setFrame f _).bind fun _ =>
    (resting_setOwner f _).bind fun _ => resting_record id id rfl

theorem resting_poolBorrow (ctx : Context) (type : FrameType) (file : String) (line : ℕ) :
    Resting (π := π) o (poolBorrow ctx type file line) := by
  unfold poolBorrow
  refine resting_ask.bind fun r => preserves_get_bind fun w h => ?_
  cases r with
  | none => exact ⟨h, refl_of Rests w⟩
  | some f =>
    dsimp only
    rw [wp_ite]
    refine ⟨fun _ => ?_, fun _ => ⟨h, refl_of Rests w⟩⟩
    obtain ⟨h₁, k₁⟩ := h.setFrame f (Pool.resetFrame (w.heap f) type file line)
    obtain ⟨h₂, k₂⟩ := h₁.setOwner f .user
    exact ⟨h₂, trans_of Rests k₁ k₂⟩

theorem resting_releaseFrame (hd : DelegateRests o d) (f : FrameId) (side : Char) :
    Resting o (releaseFrame env d f side) := by
  unfold releaseFrame
  refine (resting_setOwner f _).bind fun _ => (resting_record id id rfl).bind fun _ => ?_
  cases hg : d.frameReturn with
  | none => exact resting_frameReturn env.toContext f
  | some g => exact hd.frameReturn g hg f side

theorem resting_cntlReadPause (on : Bool) : Resting (π := π) o (cntlReadPause on) := by
  intro w h
  rw [wp_cntlReadPause]
  split
  · exact h.steady (steady_paused _)
  · split
    · trivial
    · exact h.steady (steady_resumed _)

theorem resting_pauseNoframes : Resting (π := π) o pauseNoframes := by
  unfold pauseNoframes
  refine (resting_steady fun s => ?_).bind fun _ =>
    (resting_cntlReadPause true).bind fun _ => preserves_pure _
  exact ⟨fun _ => ⟨rfl, id, id, id⟩, rfl, rfl, id, rfl, id, id, Or.inl rfl⟩

/-- The delegate reads a frame that may be handed over in this state. -/
theorem deliver_rests (hd : DelegateRests o d) (f : FrameId) (last : Bool)
    (h : TerminalInv o (w.record (.offer f (w.heap f).type))) :
    wp (fun _ => True) (deliver d f last) (fun _ w' => TerminalInv o w' ∧ Rests w w') w := by
  unfold deliver
  obtain ⟨h₁, -⟩ := h.setOwner f .user
  have hoff : Rests w ((w.setOwner f .user).record (.offer f (w.heap f).type)) :=
    ⟨failed_record id, rfl, fun _ => Calmer.refl _⟩
  rw [wp_bind, wp_getFrame, wp_bind, wp_setOwner, wp_bind, wp_record, wp_bind]
  refine wp_mono (hd.read f _ h₁) ?_
  rintro _ w₂ ⟨h₂, k₂⟩
  obtain ⟨h₃, k₃⟩ := h₂.recordSilent (x := .read f (w.heap f).contents _ last) id id rfl
  exact ⟨h₃, trans_of Rests hoff (trans_of Rests k₂ k₃)⟩

theorem deliverOrRelease_rests (hd : DelegateRests o d) (f : FrameId) (last : Bool)
    (h : TerminalInv o (w.record (.offer f (w.heap f).type))) :
    wp (fun _ => True) (deliverOrRelease env d f last) (fun _ w' => TerminalInv o w' ∧ Rests w w')
      w := by
  unfold deliverOrRelease
  rw [wp_bind]
  refine wp_mono (deliver_rests hd f last h) ?_
  rintro taken w₁ ⟨h₁, k₁⟩
  cases taken with
  | true => exact ⟨h₁, k₁⟩
  | false =>
    refine wp_mono (resting_releaseFrame hd f 'R' w₁ h₁) ?_
    rintro _ w₂ ⟨h₂, k₂⟩
    exact ⟨h₂, trans_of Rests k₁ k₂⟩

/-- The frame that is being filled is detached before it is passed on. -/
theorem resting_uplinkPartial (hd : DelegateRests o d) : Resting o (uplinkPartial env d) := by
  intro w h
  unfold uplinkPartial
  rw [wp_bind, wp_getSocket]
  cases hf : w.socket.readFrame with
  | none => exact ⟨h, refl_of Rests w⟩
  | some f =>
    dsimp only
    rw [wp_bind, wp_getFrame, wp_when]
    refine ⟨fun _ => ?_, fun _ => ⟨h, refl_of Rests w⟩⟩
    rw [wp_bind, wp_modifySocket]
    have hoff : ∀ pre e g post, w.trace = pre ++ .error e g :: post →
        (dataOffers (post ++ [Io.offer f (w.heap f).type]) ++ []).Sublist g.toList := by
      intro pre e g post ht
      have hpast := (h.past pre e g post ht).offers
      rw [hf] at hpast
      rw [dataOffers_append, List.append_nil]
      exact ((dataOffers_offer f _).append_left _).trans hpast
    obtain ⟨h₁, k₁⟩ := h.steady (steady_detach _)
    obtain ⟨h₂, -⟩ := h₁.record (x := .offer f (w.heap f).type) id (fun _ => id) hoff
    refine wp_mono (deliverOrRelease_rests hd f true h₂) ?_
    rintro _ w₂ ⟨h₃, k₂⟩
    exact ⟨h₃, trans_of Rests k₁ k₂⟩

/-- The frame that ends the stream is marked as such. -/
theorem endOfStreamFrame_rests (h : TerminalInv o w) :
    wp (fun _ => True) (endOfStreamFrame env) (fun r w' => TerminalInv o w' ∧ Rests w w' ∧
      ∀ f, r = some f → (w'.heap f).type = .endOfStream) w := by
  have hpool : wp (fun _ => True) (poolBorrow (σ := Stream) (π := π) env.toContext .endOfStream
      "stream.c" 583) (fun r w' => TerminalInv o w' ∧ Rests w w' ∧
        ∀ f, r = some f → (w'.heap f).type = .endOfStream) w := by
    refine wp_mono (wp_and (resting_poolBorrow env.toContext .endOfStream "stream.c" 583 w h)
      (poolBorrow_type env.toContext .endOfStream "stream.c" 583)) ?_
    rintro r w' ⟨⟨h', k'⟩, ht⟩
    exact ⟨h', k', ht⟩
  unfold endOfStreamFrame
  rw [wp_bind, wp_getSocket]
  cases w.socket.readFrame with
  | none => exact hpool
  | some f =>
    dsimp only
    rw [wp_bind, wp_getFrame, wp_ite]
    refine ⟨fun _ => ?_, fun _ => hpool⟩
    obtain ⟨h₁, k₁⟩ := h.steady (steady_detach _)
    obtain ⟨h₂, k₂⟩ := h₁.setFrame f { (w.heap f).formatEmpty with type := .endOfStream }
    refine ⟨h₂, trans_of Rests k₁ k₂, fun g hg => ?_⟩
    obtain rfl := Option.some.inj hg
    simp

theorem resting_readShutdownNow (hd : DelegateRests o d) : Resting o (readShutdownNow env d) := by
  unfold readShutdownNow cntlReadStop
  refine ((resting_steady (steady_readUnsetEvent _)).bind fun _ => preserves_pure _).bind
    fun _ => ?_
  refine (resting_steady fun s => ?_).bind fun _ => (resting_uplinkPartial hd).bind fun _ => ?_
  · exact ⟨fun _ => ⟨rfl, id, id, id⟩, rfl, rfl, id, rfl, id, fun _ => rfl, Or.inl rfl⟩
  intro w h
  rw [wp_bind]
  refine wp_mono (endOfStreamFrame_rests h) ?_
  rintro r w₁ ⟨h₁, k₁, ht⟩
  obtain ⟨h₂, k₂⟩ := h₁.recordSilent (x := .readEnd r) id id rfl
  have k : Rests w _ := trans_of Rests k₁ k₂
  rw [wp_bind, wp_record]
  cases r with
  | none =>
    refine wp_mono (resting_pauseNoframes _ h₂) ?_
    rintro _ w₃ ⟨h₃, k₃⟩
    exact ⟨h₃, trans_of Rests k k₃⟩
  | some f =>
    obtain ⟨h₃, -⟩ := h₂.recordSilent (x := .offer f (w₁.heap f).type) id id (by
      simp [dataOffers, ht f rfl])
    refine wp_mono (deliverOrRelease_rests hd f false h₃) ?_
    rintro _ w₃ ⟨h₄, k₄⟩
    exact ⟨h₄, trans_of Rests k k₄⟩

theorem resting_cntlAbort (hd : DelegateRests o d) : Resting o (cntlAbort env d) := by
  unfold cntlAbort
  refine (resting_readShutdownNow hd).bind fun _ =>
    (resting_steady (steady_writeUnsetEvent _)).bind fun _ => resting_ask.bind fun now =>
    (resting_steady fun s => ?_).bind fun _ => (resting_record id id rfl).bind fun _ =>
    preserves_pure _
  exact ⟨fun _ => ⟨rfl, id, id, id⟩, rfl, rfl, id, rfl, id, id, Or.inl rfl⟩

theorem resting_dequeueFrame (hd : DelegateRests o d) (f : FrameId) :
    Resting o (dequeueFrame env d f) := by
  unfold dequeueFrame
  refine resting_getSocket.bind fun s => (resting_getFrame f).bind fun x => ?_
  refine .ite _ (fun _ _ _ => trivial) fun _ => ?_
  refine (resting_steady fun s => ?_).bind fun _ => resting_releaseFrame hd f 'W'
  exact ⟨fun _ => ⟨rfl, id, id, id⟩, rfl, rfl, id, rfl, id, id, Or.inl rfl⟩

theorem resting_writeEndOfStream (hd : DelegateRests o d) (f : FrameId) :
    Resting o (writeEndOfStream env d f) := by
  unfold writeEndOfStream
  refine (resting_getFrame f).bind fun x => (resting_steady fun s => ?_).bind fun _ =>
    (resting_releaseFrame hd f 'W').bind fun _ => ?_
  · exact ⟨fun _ => ⟨rfl, id, id, id⟩, rfl, rfl, id, rfl, id, id, Or.inl rfl⟩
  intro w h
  rw [wp_bind, wp_getSocket, wp_ite]
  refine ⟨fun _ => trivial, fun _ => ?_⟩
  have hplain : Resting (π := π) o (do
      let now ← ask env.evNow
      modifySocket (writeShut now)
      FrameTransporter.record (.shutdown .SHUT_WR)) := by
    refine resting_ask.bind fun now => (resting_steady fun s => ?_).bind fun _ =>
      resting_record id id rfl
    exact ⟨fun _ => ⟨rfl, id, id, id⟩, rfl, rfl, id, rfl, id, id, Or.inl rfl⟩
  refine (resting_steady (steady_writeUnsetEvent _)).wp_bind h fun _ w₁ h₁ _ => ?_
  rw [h.ssl, if_neg (by simp)]
  exact hplain w₁ h₁

/-- An error stops the stream for good. -/
theorem error_ran {c : Prop} (hd : DelegateRests o d) (h : TerminalInv o w) (hn : ¬Failed w)
    (e : Errno)
    (hw : c → w.socket.connecting = false → WRITE_WANT_WRITE ∉ w.socket.writeEvents) :
    wp (fun _ => True) (Stream.error env d (some e) 0) (fun _ w' => TerminalInv o w' ∧ Ran c w w')
      w := by
  unfold Stream.error
  rw [if_neg (by simp), wp_bind, wp_ask, wp_bind, wp_modifySocket, wp_bind, wp_getSocket, wp_bind,
    wp_record, wp_bind]
  have h₁ : TerminalInv o (((w.tick).setSocket
      (failed (env.evNow w.clock) (some e) 0 w.socket)).record
        (.error (some e) w.socket.readFrame)) := by
    refine ⟨h.ssl, h.accepted, fun pre e' f post ht => ?_⟩
    rcases concat_eq_split ht with ⟨rfl, he, -⟩ | ⟨post, -, ht⟩
    · obtain ⟨rfl, rfl⟩ := Io.error.inj he
      exact ⟨by simp, by simp [dataOffers, failed], rfl, rfl, rfl⟩
    · exact absurd (failed_of_split (w := w) ht) hn
  refine wp_mono (hd.error _ h₁) ?_
  rintro _ w₂ ⟨h₂, k₂⟩
  have hf₁ : Failed (((w.tick).setSocket (failed (env.evNow w.clock) (some e) 0 w.socket)).record
      (.error (some e) w.socket.readFrame)) :=
    ⟨.error (some e) w.socket.readFrame, by simp, trivial⟩
  have hf₂ : Failed w₂ := k₂.failed.mpr hf₁
  have hstop : Steady w₂.socket (stopped w₂.socket) :=
    ⟨fun _ => ⟨rfl, by simp [stopped], by simp [stopped], id⟩, rfl, rfl, id, rfl, id, id,
      Or.inl rfl⟩
  obtain ⟨h₃, -⟩ := h₂.steady hstop
  obtain ⟨h₄, k₄⟩ := h₃.recordSilent (x := .shutdown .SHUT_RDWR) id id rfl
  refine ⟨h₄, fun hf => absurd hf hn, fun hf => absurd hf hn, fun _ _ => ⟨rfl, rfl⟩, ?_⟩
  intro hp _ _ hc he
  have hc₁ : w.socket.connecting = false := k₂.connecting.symm.trans hc
  exact hw hp hc₁ ((k₂.calmer hf₁).write he)

end Functions

section Writing

variable {o : Opening} {env : Env} {d : Delegate π} {w : World Stream π} {f : FrameId}
  {R : World Stream π → World Stream π → Prop}

/-- What follows when a send fails for good is within the relation. -/
def FailsWithin (o : Opening) (env : Env) (d : Delegate π)
    (R : World Stream π → World Stream π → Prop) : Prop :=
  ∀ w e, TerminalInv o w → ¬Failed w → env.send w.socket w.clock = .failed e → e ≠ .EAGAIN →
    wp (fun _ => True) (Stream.error env d (some e) 0) (fun _ w' => TerminalInv o w' ∧ R w w')
      (w.tick.record (.send []))

theorem transmit_within (hR : ∀ w w', Rests w w' → R w w') (herr : FailsWithin o env d R)
    (h : TerminalInv o w) (hn : ¬Failed w) (bytes : List UInt8) :
    wp (fun _ => True) (transmit env d bytes)
      (fun r w' => TerminalInv o w' ∧ R w w' ∧ (r ≠ none → ¬Failed w')) w := by
  obtain ⟨h₁, k₁⟩ := h.tick
  have hawait : ∀ x, ¬Reported x → wp (fun _ => True)
      (do modifySocket awaitWrite; return none : StreamM π (Option ℕ))
      (fun r w' => TerminalInv o w' ∧ R w w' ∧ (r ≠ none → ¬Failed w')) (w.tick.record x) := by
    intro x hx
    obtain ⟨h₂, k₂⟩ := h₁.recordBefore hn hx
    obtain ⟨h₃, k₃⟩ := h₂.plainly (mt k₂.failed.mp hn) (plainly_awaitWrite _)
    exact ⟨h₃, hR _ _ (trans_of Rests k₁ (trans_of Rests k₂ k₃)), fun hr => absurd rfl hr⟩
  unfold transmit
  rw [wp_bind, wp_getSocket, if_pos h.ssl, wp_bind, wp_ask]
  cases hr : env.send w.socket w.clock with
  | failed e =>
    by_cases he : e = .EAGAIN
    · subst he
      exact hawait _ id
    · have hfail := herr w e h hn hr he
      cases e with
      | EAGAIN => exact absurd rfl he
      | _ =>
        dsimp only
        rw [wp_bind, wp_record, wp_bind]
        refine wp_mono hfail ?_
        rintro _ _ ⟨h', k'⟩
        exact ⟨h', k', fun hr => absurd rfl hr⟩
  | sent n =>
    dsimp only
    rw [wp_bind, wp_record, wp_ite]
    refine ⟨fun _ => hawait _ id, fun _ => ?_⟩
    obtain ⟨h₂, k₂⟩ := h₁.recordBefore (x := .send (bytes.take n)) hn id
    exact ⟨h₂, hR _ _ (trans_of Rests k₁ k₂), fun _ => mt k₂.failed.mp hn⟩

variable [IsPreorder (World Stream π) R]

/-- The rest of a program runs behind what is within the relation. -/
theorem wp_within {α : Type} {m : StreamM π α} {w₁ : World Stream π} (h : R w w₁)
    (hm : wp (fun _ => True) m (fun _ w' => TerminalInv o w' ∧ R w₁ w') w₁) :
    wp (fun _ => True) m (fun _ w' => TerminalInv o w' ∧ R w w') w₁ :=
  wp_mono hm fun _ _ h' => ⟨h'.1, trans_of R h h'.2⟩

theorem writeVec_within (hd : DelegateRests o d) (hR : ∀ w w', Rests w w' → R w w')
    (herr : FailsWithin o env d R) (h : TerminalInv o w) (hn : ¬Failed w) (f : FrameId) :
    wp (fun _ => True) (writeVec env d f)
      (fun r w' => TerminalInv o w' ∧ R w w' ∧ (r = true → ¬Failed w')) w := by
  unfold writeVec
  rw [wp_bind, wp_getFrame, wp_bind]
  refine wp_mono (resting_liftM (w.heap f).getVec w h) ?_
  rintro v w₁ ⟨h₁, k₁⟩
  have hn₁ : ¬Failed w₁ := mt k₁.failed.mp hn
  cases v with
  | none => trivial
  | some v =>
    dsimp only
    rw [wp_ite]
    refine ⟨fun _ => trivial, fun _ => ?_⟩
    rw [wp_bind]
    refine wp_mono (transmit_within hR herr h₁ hn₁ _) ?_
    rintro r w₂ ⟨h₂, k₂, hn₂⟩
    have k : R w w₂ := trans_of R (hR _ _ k₁) k₂
    cases r with
    | none => exact ⟨h₂, k, by simp⟩
    | some n =>
      have hn₂ : ¬Failed w₂ := hn₂ (by simp)
      dsimp only
      rw [wp_bind]
      refine wp_mono (resting_liftM ((w.heap f).advanceVec v n) w₂ h₂) ?_
      rintro x w₃ ⟨h₃, k₃⟩
      obtain ⟨h₄, k₄⟩ := h₃.setFrame f x
      have k : R w (w₃.setFrame f x) := trans_of R k (hR _ _ (trans_of Rests k₃ k₄))
      have hn₄ : ¬Failed (w₃.setFrame f x) := mt (k₄.failed.trans k₃.failed).mp hn₂
      rw [wp_bind, wp_setFrame, wp_ite]
      refine ⟨fun _ => ?_, fun _ => ?_⟩
      · obtain ⟨h₅, k₅⟩ := h₄.plainly hn₄ (plainly_awaitWrite _)
        exact ⟨h₅, trans_of R k (hR _ _ k₅), by simp⟩
      · rw [wp_bind]
        refine wp_mono (resting_liftM x.nextVec _ h₄) ?_
        rintro r w₅ ⟨h₅, k₅⟩
        obtain ⟨h₆, k₆⟩ := h₅.setFrame f r.2
        have k : R w (w₅.setFrame f r.2) := trans_of R k (hR _ _ (trans_of Rests k₅ k₆))
        have hn₆ : ¬Failed (w₅.setFrame f r.2) := mt (k₆.failed.trans k₅.failed).mp hn₄
        obtain ⟨more, x'⟩ := r
        dsimp only
        rw [wp_bind, wp_setFrame, wp_ite]
        refine ⟨fun _ => ⟨h₆, k, fun _ => hn₆⟩, fun _ => ?_⟩
        rw [wp_bind]
        refine wp_mono (resting_dequeueFrame hd f _ h₆) ?_
        rintro _ w₇ ⟨h₇, k₇⟩
        exact ⟨h₇, trans_of R k (hR _ _ k₇), fun _ => mt k₇.failed.mp hn₆⟩

theorem writeLoop_within (hd : DelegateRests o d) (hR : ∀ w w', Rests w w' → R w w')
    (herr : FailsWithin o env d R) (n : ℕ) (h : TerminalInv o w) (hn : ¬Failed w) :
    wp (fun _ => True) (writeLoop env d n) (fun _ w' => TerminalInv o w' ∧ R w w') w := by
  induction n generalizing w with
  | zero =>
    rw [writeLoop, wp_bind, wp_getSocket, wp_when]
    refine ⟨fun _ => ?_, fun _ => ⟨h, refl_of R w⟩⟩
    obtain ⟨h₁, k₁⟩ := h.plainly hn (plainly_awaitWrite _)
    exact ⟨h₁, hR _ _ k₁⟩
  | succ n ih =>
    rw [writeLoop, wp_bind, wp_getSocket]
    cases w.socket.writeFrames with
    | none => exact ⟨h, refl_of R w⟩
    | some f =>
      dsimp only
      rw [wp_bind, wp_getFrame, wp_ite]
      refine ⟨fun _ => wp_mono (resting_writeEndOfStream hd f w h) fun _ _ h' =>
        ⟨h'.1, hR _ _ h'.2⟩, fun _ => ?_⟩
      rw [wp_bind]
      refine wp_mono (writeVec_within hd hR herr h hn f) ?_
      rintro more w₁ ⟨h₁, k₁, hn₁⟩
      cases more with
      | false => exact ⟨h₁, k₁⟩
      | true => exact wp_within k₁ (ih h₁ (hn₁ rfl))

theorem writeReal_within (hd : DelegateRests o d) (hR : ∀ w w', Rests w w' → R w w')
    (herr : FailsWithin o env d R) (h : TerminalInv o w) (hn : ¬Failed w) :
    wp (fun _ => True) (writeReal env d) (fun _ w' => TerminalInv o w' ∧ R w w') w := by
  unfold writeReal
  rw [wp_bind, wp_getSocket, wp_ite, wp_ite]
  exact ⟨fun _ => trivial, fun _ => ⟨fun _ => trivial, fun _ => writeLoop_within hd hR herr _ h hn⟩⟩

theorem onWriteEvent_within (hd : DelegateRests o d) (hR : ∀ w w', Rests w w' → R w w')
    (herr : FailsWithin o env d R) (h : TerminalInv o w) (hn : ¬Failed w) :
    wp (fun _ => True) (onWriteEvent env d) (fun _ w' => TerminalInv o w' ∧ R w w') w := by
  unfold onWriteEvent
  rw [wp_bind, wp_getSocket, wp_ite]
  refine ⟨fun _ => trivial, fun _ => ?_⟩
  obtain ⟨h₁, k₁⟩ := h.plainly (s := { w.socket with writeReady := true }) hn ⟨rfl, rfl, id⟩
  rw [wp_bind, wp_modifySocket, wp_ite]
  refine ⟨fun _ => ?_, fun _ => ?_⟩
  · have hsub : CONNECT_WANT_WRITE ∈ w.socket.writeEvents \ {WRITE_WANT_WRITE} →
        CONNECT_WANT_WRITE ∈ w.socket.writeEvents := fun hm => (Finset.mem_sdiff.mp hm).1
    obtain ⟨h₂, k₂⟩ := h₁.plainly (mt k₁.failed.mp hn) (s := { w.socket with
      writeReady := true, writeEvents := w.socket.writeEvents \ {WRITE_WANT_WRITE} })
      ⟨rfl, rfl, hsub⟩
    have k : Rests w _ := trans_of Rests k₁ k₂
    rw [wp_bind, wp_modifySocket, wp_bind]
    refine wp_mono (writeReal_within hd hR herr h₂ (mt k.failed.mp hn)) ?_
    rintro _ w₃ ⟨h₃, k₃⟩
    have k : R w w₃ := trans_of R (hR _ _ k) k₃
    rw [wp_bind, wp_getSocket, wp_when]
    refine ⟨fun _ => ?_, fun _ => ⟨h₃, k⟩⟩
    obtain ⟨h₄, k₄⟩ := h₃.steady (steady_writeUnsetEvent {WRITE_WANT_WRITE} _)
    exact ⟨h₄, trans_of R k (hR _ _ k₄)⟩
  · obtain ⟨h₂, k₂⟩ := h₁.steady (steady_writeUnsetEvent {WRITE_WANT_WRITE} _)
    exact ⟨h₂, hR _ _ (trans_of Rests k₁ k₂)⟩

theorem TerminalInv.queued (h : TerminalInv o w) (hn : ¬Failed w) (f : FrameId) :
    TerminalInv o (queued w f) ∧ Rests w (queued w f) := by
  have h₁ : TerminalInv o (w.enqueue w.socket.writeFrameLast f) := ⟨h.ssl, h.accepted, h.past⟩
  obtain ⟨h₂, -⟩ := h₁.plainly (s := { w.socket with
    writeOpen := if (w.heap f).type = .endOfStream then false else w.socket.writeOpen
    writeFrames := w.socket.writeFrameLast.storeHead f w.socket.writeFrames
    writeFrameLast := .next f
    writeQueueLength := w.socket.writeQueueLength + 1 }) hn ⟨rfl, rfl, id⟩
  obtain ⟨h₃, -⟩ := h₂.setOwner f .writer
  obtain ⟨h₄, -⟩ := h₃.recordBefore (x := .accepted f (w.heap f).type (w.heap f).pendingBytes) hn id
  exact ⟨h₄, failed_record id, rfl, fun hf => absurd hf hn⟩

/-- A failed stream accepts no frame. -/
theorem write_within (hd : DelegateRests o d) (hR : ∀ w w', Rests w w' → R w w')
    (herr : FailsWithin o env d R) (h : TerminalInv o w) (f : FrameId) :
    wp (fun _ => True) (Stream.write env d f) (fun _ w' => TerminalInv o w' ∧ R w w') w := by
  unfold Stream.write
  rw [wp_bind, wp_getSocket, wp_ite]
  refine ⟨fun _ => ⟨h, refl_of R w⟩, fun ho => ?_⟩
  have hn : ¬Failed w := fun hf => ho (h.shut hf).2
  obtain ⟨h₁, k₁⟩ := h.queued hn f
  rw [wp_bind, wp_enqueueFrame, wp_ite]
  refine ⟨fun _ => ?_, fun _ => ?_⟩
  · rw [wp_bind, wp_when]
    refine ⟨fun _ => ?_, fun _ => ⟨h₁, hR _ _ k₁⟩⟩
    obtain ⟨h₂, k₂⟩ := h₁.plainly (mt k₁.failed.mp hn) (plainly_writeSetEvent _)
    exact ⟨h₂, hR _ _ (trans_of Rests k₁ k₂)⟩
  · rw [wp_bind]
    exact wp_within (hR _ _ k₁) (writeReal_within hd hR herr h₁ (mt k₁.failed.mp hn))

theorem cntlWriteShutdown_within (hd : DelegateRests o d) (hR : ∀ w w', Rests w w' → R w w')
    (herr : FailsWithin o env d R) (h : TerminalInv o w) :
    wp (fun _ => True) (cntlWriteShutdown env d) (fun _ w' => TerminalInv o w' ∧ R w w') w := by
  unfold cntlWriteShutdown
  rw [wp_bind, wp_getSocket, wp_ite, wp_ite]
  refine ⟨fun _ => ⟨h, refl_of R w⟩, fun _ => ⟨fun _ => ⟨h, refl_of R w⟩, fun _ => ?_⟩⟩
  rw [wp_bind]
  refine wp_mono (resting_poolBorrow env.toContext .endOfStream "stream.c" 1189 w h) ?_
  rintro r w₁ ⟨h₁, k₁⟩
  cases r with
  | none => exact ⟨h₁, hR _ _ k₁⟩
  | some f =>
    obtain ⟨h₂, k₂⟩ := resting_record (x := .obtained f) id id rfl w₁ h₁
    rw [wp_bind, wp_record]
    exact wp_within (hR _ _ (trans_of Rests k₁ k₂)) (write_within hd hR herr h₂ f)

end Writing

section Reading

variable {o : Opening} {env : Env} {d : Delegate π} {w : World Stream π} {f : FrameId}

theorem resting_fetchReadFrame (hd : DelegateRests o d) : Resting o (fetchReadFrame env d) := by
  unfold fetchReadFrame
  cases hg : d.getReadFrame with
  | some g => exact hd.getReadFrame g hg
  | none =>
    refine (resting_poolBorrow env.toContext .rawData "stream.c" 633).bind fun r => ?_
    cases r with
    | none => exact preserves_pure _
    | some f =>
      exact (resting_getFrame f).bind fun x => (resting_liftM x.formatSimple).bind fun x' =>
        (resting_setFrame f x').bind fun _ => preserves_pure _

theorem takeReadFrame_rests (hd : DelegateRests o d) (h : TerminalInv o w) (hn : ¬Failed w) :
    wp (fun _ => True) (takeReadFrame env d) (fun _ w' => TerminalInv o w' ∧ Rests w w') w := by
  unfold takeReadFrame
  rw [wp_bind, wp_getSocket, wp_ite]
  refine ⟨fun _ => ⟨h, refl_of Rests w⟩, fun _ => ?_⟩
  rw [wp_bind]
  refine wp_mono (resting_fetchReadFrame hd w h) ?_
  rintro r w₁ ⟨h₁, k₁⟩
  cases r with
  | none =>
    dsimp only
    rw [wp_bind]
    exact wp_within k₁ (resting_pauseNoframes w₁ h₁)
  | some f =>
    have hn₁ : ¬Failed w₁ := mt k₁.failed.mp hn
    obtain ⟨h₂, k₂⟩ := (h₁.recordBefore (x := .obtained f) hn₁ id).1.setOwner f .reader
    have k₂ : Rests w₁ ((w₁.record (.obtained f)).setOwner f .reader) :=
      trans_of Rests (h₁.recordBefore (x := .obtained f) hn₁ id).2 k₂
    have hn₂ : ¬Failed ((w₁.record (.obtained f)).setOwner f .reader) := mt k₂.failed.mp hn₁
    obtain ⟨h₃, k₃⟩ := h₂.plainly (s := { w₁.socket with readFrame := some f }) hn₂ ⟨rfl, rfl, id⟩
    exact ⟨h₃, trans_of Rests k₁ (trans_of Rests k₂ k₃)⟩

theorem recvPlain_ran (hd : DelegateRests o d) (h : TerminalInv o w) (hn : ¬Failed w) (v : Vec)
    (size : ℕ) : wp (fun _ => True) (recvPlain env d v size)
      (fun r w' => TerminalInv o w' ∧ Ran False w w' ∧ (r ≠ none → ¬Failed w')) w := by
  obtain ⟨h₁, k₁⟩ := h.tick
  have hrecv : ∀ bytes, TerminalInv o (w.tick.record (.recv v size bytes)) ∧
      Rests w (w.tick.record (.recv v size bytes)) := by
    intro bytes
    obtain ⟨h₂, k₂⟩ := h₁.recordBefore (x := .recv v size bytes) hn id
    exact ⟨h₂, trans_of Rests k₁ k₂⟩
  obtain ⟨h₂, k₂⟩ := hrecv []
  unfold recvPlain
  rw [wp_bind, wp_getSocket, wp_bind, wp_ask]
  cases env.recv w.socket w.clock with
  | failed e =>
    have hfail : wp (fun _ => True) (do
        Stream.error env d (some e) 0
        readShutdownNow env d
        return none : StreamM π (Option (List UInt8)))
        (fun r w' => TerminalInv o w' ∧ Ran False w w' ∧ (r ≠ none → ¬Failed w'))
        (w.tick.record (.recv v size [])) := by
      rw [wp_bind]
      refine wp_mono (error_ran (c := False) hd h₂ (mt k₂.failed.mp hn) e False.elim) ?_
      rintro _ w₃ ⟨h₃, k₃⟩
      rw [wp_bind]
      refine wp_mono (resting_readShutdownNow hd w₃ h₃) ?_
      rintro _ w₄ ⟨h₄, k₄⟩
      exact ⟨h₄, trans_of (Ran False) k₂.ran (trans_of (Ran False) k₃ k₄.ran),
        fun hr => absurd rfl hr⟩
    cases e with
    | EAGAIN =>
      obtain ⟨h₃, k₃⟩ := h₂.steady (steady_readSetEvent {READ_WANT_READ} _)
      exact ⟨h₃, (trans_of Rests k₂ k₃).ran, fun hr => absurd rfl hr⟩
    | _ => exact hfail
  | data bytes =>
    obtain ⟨h₂, k₂⟩ := hrecv (bytes.take size)
    have hn₂ := mt k₂.failed.mp hn
    dsimp only
    rw [wp_bind, wp_record, wp_ite]
    refine ⟨fun _ => ?_, fun _ => ⟨h₂, k₂.ran, fun _ => hn₂⟩⟩
    obtain ⟨h₃, k₃⟩ := h₂.plainly (s := { w.socket with sysErrno := none, sslError := 0 }) hn₂
      ⟨rfl, rfl, id⟩
    rw [wp_bind, wp_modifySocket, wp_bind]
    refine wp_mono (resting_readShutdownNow hd _ h₃) ?_
    rintro _ w₄ ⟨h₄, k₄⟩
    exact ⟨h₄, (trans_of Rests k₂ (trans_of Rests k₃ k₄)).ran, fun hr => absurd rfl hr⟩

/-- A full frame is handed over before an error. -/
theorem uplink_rests (hd : DelegateRests o d) (h : TerminalInv o w) (hn : ¬Failed w) (f : FrameId) :
    wp (fun _ => True) (uplink d f) (fun _ w' => TerminalInv o w' ∧ Rests w w') w := by
  obtain ⟨h₁, k₁⟩ := h.steady (steady_detach _)
  have hn₁ := mt k₁.failed.mp hn
  unfold uplink
  rw [wp_bind, wp_modifySocket, wp_bind]
  refine wp_mono (deliver_rests hd f false (h₁.recordBefore hn₁ id).1) ?_
  rintro taken w₂ ⟨h₂, k₂⟩
  have k : Rests w w₂ := trans_of Rests k₁ k₂
  cases taken with
  | true => exact ⟨h₂, k⟩
  | false =>
    obtain ⟨h₃, k₃⟩ := h₂.setOwner f .reader
    have hn₃ : ¬Failed (w₂.setOwner f .reader) := mt (k₃.failed.trans k.failed).mp hn
    obtain ⟨h₄, k₄⟩ := h₃.plainly (s := { w₂.socket with readFrame := some f }) hn₃ ⟨rfl, rfl, id⟩
    exact ⟨h₄, trans_of Rests k (trans_of Rests k₃ k₄)⟩

theorem uplinkAlone_rests (hd : DelegateRests o d) (h : TerminalInv o w) (hn : ¬Failed w)
    (f : FrameId) :
    wp (fun _ => True) (uplinkAlone d f) (fun _ w' => TerminalInv o w' ∧ Rests w w') w := by
  obtain ⟨h₁, k₁⟩ := h.steady (steady_detach _)
  have hn₁ := mt k₁.failed.mp hn
  unfold uplinkAlone
  rw [wp_bind, wp_modifySocket, wp_bind]
  refine wp_mono (deliver_rests hd f false (h₁.recordBefore hn₁ id).1) ?_
  rintro taken w₂ ⟨h₂, k₂⟩
  have k : Rests w w₂ := trans_of Rests k₁ k₂
  cases taken with
  | true => exact ⟨h₂, k⟩
  | false =>
    rw [if_neg (by simp), wp_bind, wp_getSocket, wp_ite]
    refine ⟨fun _ => trivial, fun _ => ?_⟩
    obtain ⟨h₃, k₃⟩ := h₂.setOwner f .reader
    have hn₃ : ¬Failed (w₂.setOwner f .reader) := mt (k₃.failed.trans k.failed).mp hn
    obtain ⟨h₄, k₄⟩ := h₃.plainly (s := { w₂.socket with readFrame := some f }) hn₃ ⟨rfl, rfl, id⟩
    exact ⟨h₄, trans_of Rests k (trans_of Rests k₃ k₄)⟩

theorem vecAdvanced_rests (hd : DelegateRests o d) (h : TerminalInv o w) (hn : ¬Failed w)
    (f : FrameId) (filled : Bool) :
    wp (fun _ => True) (vecAdvanced d f filled) (fun _ w' => TerminalInv o w' ∧ Rests w w') w := by
  have hup : ∀ w₁ : World Stream π, TerminalInv o w₁ → Rests w w₁ →
      wp (fun _ => True) (do
        uplink d f
        let s ← getSocket
        return decide (READ_WANT_READ ∈ s.readEvents))
        (fun _ w' => TerminalInv o w' ∧ Rests w w') w₁ := by
    intro w₁ h₁ k₁
    rw [wp_bind]
    exact wp_within k₁ (uplink_rests hd h₁ (mt k₁.failed.mp hn) f)
  unfold vecAdvanced
  rw [wp_bind, wp_getSocket, wp_ite]
  refine ⟨fun _ => ?_, fun _ => ?_⟩
  · rw [wp_bind, wp_when]
    have hwant : ∀ w₁ : World Stream π, TerminalInv o w₁ → Rests w w₁ →
        wp (fun _ => True) (do modifySocket (readSetEvent {READ_WANT_READ}); return false)
          (fun _ w' => TerminalInv o w' ∧ Rests w w') w₁ := by
      intro w₁ h₁ k₁
      obtain ⟨h₂, k₂⟩ := h₁.steady (steady_readSetEvent {READ_WANT_READ} _)
      exact ⟨h₂, trans_of Rests k₁ k₂⟩
    refine ⟨fun _ => ?_, fun _ => hwant w h (refl_of Rests w)⟩
    refine wp_mono (uplinkAlone_rests hd h hn f) ?_
    rintro _ w₁ ⟨h₁, k₁⟩
    exact hwant w₁ h₁ k₁
  · rw [wp_bind, wp_getFrame, wp_bind]
    refine wp_mono (resting_liftM (w.heap f).nextVec w h) ?_
    rintro r w₁ ⟨h₁, k₁⟩
    obtain ⟨more, x⟩ := r
    obtain ⟨h₂, k₂⟩ := h₁.setFrame f x
    have k : Rests w (w₁.setFrame f x) := trans_of Rests k₁ k₂
    dsimp only
    rw [wp_bind, wp_setFrame, wp_ite, wp_ite]
    exact ⟨fun _ => hup _ h₂ k, fun _ => ⟨fun _ => hup _ h₂ k, fun _ => ⟨h₂, k⟩⟩⟩

theorem readVec_ran (hd : DelegateRests o d) (h : TerminalInv o w) (hn : ¬Failed w) (f : FrameId) :
    wp (fun _ => True) (readVec env d f)
      (fun r w' => TerminalInv o w' ∧ Ran False w w' ∧ (r = true → ¬Failed w')) w := by
  unfold readVec
  rw [wp_bind, wp_getFrame, wp_bind]
  refine wp_mono (resting_liftM (w.heap f).getVec w h) ?_
  rintro v w₁ ⟨h₁, k₁⟩
  have hn₁ : ¬Failed w₁ := mt k₁.failed.mp hn
  cases v with
  | none => trivial
  | some v =>
    dsimp only
    rw [wp_ite]
    refine ⟨fun _ => trivial, fun _ => ?_⟩
    rw [wp_bind, receive, wp_bind, wp_getSocket, if_pos h₁.ssl]
    refine wp_mono (recvPlain_ran hd h₁ hn₁ v _) ?_
    rintro r w₂ ⟨h₂, k₂, hn₂⟩
    have k : Ran False w w₂ := trans_of (Ran False) k₁.ran k₂
    cases r with
    | none => exact ⟨h₂, k, by simp⟩
    | some bytes =>
      have hn₂ : ¬Failed w₂ := hn₂ (by simp)
      dsimp only
      rw [wp_bind]
      refine wp_mono (resting_liftM _ w₂ h₂) ?_
      rintro x w₃ ⟨h₃, k₃⟩
      obtain ⟨h₄, k₄⟩ := h₃.setFrame f x
      have hn₄ : ¬Failed (w₃.setFrame f x) := mt (k₄.failed.trans k₃.failed).mp hn₂
      rw [wp_bind, wp_setFrame]
      refine wp_mono (vecAdvanced_rests hd h₄ hn₄ f _) ?_
      rintro _ w₅ ⟨h₅, k₅⟩
      have k' : Rests w₂ w₅ := trans_of Rests k₃ (trans_of Rests k₄ k₅)
      exact ⟨h₅, trans_of (Ran False) k k'.ran, fun _ => mt k'.failed.mp hn₂⟩

/-- The read loop ends with the error that it meets. -/
theorem readLoop_ran (hd : DelegateRests o d) (n : ℕ) (h : TerminalInv o w) (hn : ¬Failed w) :
    wp (fun _ => True) (readLoop env d n) (fun _ w' => TerminalInv o w' ∧ Ran False w w') w := by
  induction n generalizing w with
  | zero =>
    obtain ⟨h₁, k₁⟩ := h.steady (steady_readSetEvent {READ_WANT_READ} _)
    exact ⟨h₁, k₁.ran⟩
  | succ n ih =>
    unfold readLoop
    rw [wp_bind]
    refine wp_mono (takeReadFrame_rests hd h hn) ?_
    rintro r w₁ ⟨h₁, k₁⟩
    cases r with
    | none => exact ⟨h₁, k₁.ran⟩
    | some f =>
      dsimp only
      rw [wp_bind]
      refine wp_mono (readVec_ran hd h₁ (mt k₁.failed.mp hn) f) ?_
      rintro more w₂ ⟨h₂, k₂, hn₂⟩
      have k : Ran False w w₂ := trans_of (Ran False) k₁.ran k₂
      cases more with
      | false => exact ⟨h₂, k⟩
      | true => exact wp_within k (ih h₂ (hn₂ rfl))

theorem onReadEvent_ran (hd : DelegateRests o d) (h : TerminalInv o w) (hn : ¬Failed w) :
    wp (fun _ => True) (onReadEvent env d) (fun _ w' => TerminalInv o w' ∧ Ran False w w') w := by
  unfold onReadEvent
  rw [wp_bind, wp_getSocket, wp_ite]
  exact ⟨fun _ => trivial, fun _ => readLoop_ran hd _ h hn⟩

theorem onRead_ran (hd : DelegateRests o d) (h : TerminalInv o w) (hn : ¬Failed w) :
    wp (fun _ => True) (onRead env d) (fun _ w' => TerminalInv o w' ∧ Ran False w w') w := by
  unfold onRead
  rw [wp_bind, wp_getSocket, wp_ite]
  refine ⟨fun _ => ?_, fun _ => ?_⟩
  · obtain ⟨h₁, k₁⟩ := h.plainly (s := { w.socket with readWatcher := false }) hn ⟨rfl, rfl, id⟩
    exact ⟨h₁, k₁.ran⟩
  · rw [wp_bind]
    refine wp_mono (Q := fun _ w' => TerminalInv o w' ∧ Ran False w w') ?_ ?_
    · rw [wp_when]
      exact ⟨fun _ => onReadEvent_ran hd h hn, fun _ => ⟨h, refl_of (Ran False) w⟩⟩
    · rintro _ w₁ ⟨h₁, k₁⟩
      rw [wp_bind, wp_getSocket, wp_when]
      exact ⟨fun hs => by simp [h₁.ssl] at hs, fun _ => ⟨h₁, k₁⟩⟩

end Reading

section Handlers

variable {o : Opening} {env : Env} {d : Delegate π} {w : World Stream π} {c : Prop}

/-- No send fails for good. -/
def Quiet (env : Env) : Prop := ∀ s n e, env.send s n = .failed e → e = .EAGAIN

/-- A send fails for good only while no write event is wanted. -/
def Careful (env : Env) : Prop := ∀ s n e, env.send s n = .failed e →
  e = .EAGAIN ∨ WRITE_WANT_WRITE ∉ s.writeEvents

theorem Quiet.failsWithin (henv : Quiet env) : FailsWithin o env d Rests :=
  fun _ _ _ _ hr he => absurd (henv _ _ _ hr) he

theorem failsWithin_ran (hd : DelegateRests o d) (hc : c → Careful env) :
    FailsWithin o env d (Ran c) := by
  intro w e h hn hr he
  obtain ⟨h₁, k₁⟩ := h.tick
  obtain ⟨h₂, k₂⟩ := h₁.recordBefore (x := .send []) hn id
  have k : Rests w (w.tick.record (.send [])) := trans_of Rests k₁ k₂
  refine wp_within (R := Ran c) k.ran (error_ran hd h₂ (mt k.failed.mp hn) e fun hp _ => ?_)
  exact (hc hp _ _ _ hr).resolve_left he

theorem Ran.weaken (h : Ran c w w') : Ran False w w' := ⟨h.failed, h.calmer, h.stopped, False.elim⟩

theorem ran_of_not_failed {w' : World Stream π} (hn : ¬Failed w) (hn' : ¬Failed w') : Ran c w w' :=
  ⟨fun h => absurd h hn, fun h => absurd h hn, fun _ h => absurd h hn', fun _ _ h => absurd h hn'⟩

theorem onConnectEvent_ran (hd : DelegateRests .connect d) (henv : Careful env)
    (h : TerminalInv .connect w) (hn : ¬Failed w) :
    wp (fun _ => True) (onConnectEvent env d)
      (fun _ w' => TerminalInv .connect w' ∧ Ran True w w') w := by
  obtain ⟨h₁, k₁⟩ := h.tick
  unfold onConnectEvent
  rw [wp_bind, wp_getSocket, wp_ite]
  refine ⟨fun _ => trivial, fun hc => ?_⟩
  rw [wp_bind, wp_ask]
  cases env.soError w.clock with
  | unknown => exact ⟨h₁, k₁.ran⟩
  | error e =>
    exact wp_within k₁.ran (error_ran hd h₁ (mt k₁.failed.mp hn) e fun _ hc' => absurd hc' hc)
  | none =>
    have hs : (started (writeUnsetEvent {CONNECT_WANT_WRITE} w.socket)).ssl = false := by
      simp [started, writeSetEvent_eq, readSetEvent_eq, writeUnsetEvent_eq, h.ssl]
    dsimp only
    rw [wp_bind, wp_modifySocket, if_neg (by simp [h.ssl]), wp_bind, wp_cntlStart, wp_bind,
      wp_modifySocket, wp_bind, wp_record, wp_bind]
    simp only [World.setSocket_setSocket, World.setSocket_socket, World.tick_socket]
    generalize started (writeUnsetEvent {CONNECT_WANT_WRITE} w.socket) = s at hs
    have h₂ : TerminalInv .connect (w.tick.setSocket { s with connecting := false }) :=
      ⟨hs, fun ho => absurd rfl ho, fun pre e f post ht => absurd (failed_of_split (w := w) ht) hn⟩
    obtain ⟨h₃, k₃⟩ := h₂.recordBefore (x := .connected) hn id
    refine wp_mono (hd.connected _ h₃) ?_
    rintro _ w₄ ⟨h₄, k₄⟩
    have hn₄ : ¬Failed w₄ := mt (k₄.failed.trans k₃.failed).mp hn
    exact wp_within (ran_of_not_failed hn hn₄)
      (onWriteEvent_within hd (fun _ _ => Rests.ran) (failsWithin_ran hd fun _ => henv) h₄ hn₄)

/-- A handler that goes on after an error finds no write event. -/
theorem onWriteReady_ran (hd : DelegateRests o d) (h : TerminalInv o w)
    (hf : Failed w → w.socket.connecting = false → WRITE_WANT_WRITE ∉ w.socket.writeEvents) :
    wp (fun _ => True) (onWriteReady env d) (fun _ w' => TerminalInv o w' ∧ Ran False w w') w := by
  unfold onWriteReady
  rw [wp_bind, wp_getSocket, wp_bind]
  refine wp_mono (Q := fun _ w' => TerminalInv o w' ∧ Ran False w w') ?_ ?_
  · rw [wp_when]
    refine ⟨fun hw => ?_, fun _ => ⟨h, refl_of (Ran False) w⟩⟩
    by_cases hn : Failed w
    · unfold onWriteEvent
      rw [wp_bind, wp_getSocket, wp_ite]
      exact ⟨fun _ => trivial, fun hc => absurd hw (hf hn (by simpa using hc))⟩
    · exact onWriteEvent_within hd (fun _ _ => Rests.ran) (failsWithin_ran hd False.elim) h hn
  · rintro _ w₁ ⟨h₁, k₁⟩
    rw [wp_bind, wp_getSocket, wp_when]
    exact ⟨fun hs => by simp [h₁.ssl] at hs, fun _ => ⟨h₁, k₁⟩⟩

theorem onWrite_ran (hd : DelegateRests o d) (henv : o = .connect → Careful env)
    (h : TerminalInv o w) (hn : ¬Failed w) :
    wp (fun _ => True) (onWrite env d) (fun _ w' => TerminalInv o w' ∧ Ran False w w') w := by
  unfold onWrite
  rw [wp_bind, wp_getSocket, wp_bind, wp_when]
  refine ⟨fun hw => ?_, fun _ => onWriteReady_ran hd h fun hf => absurd hf hn⟩
  obtain rfl : o = .connect := by
    by_contra ho
    exact (h.accepted ho).2 hw
  refine wp_mono (onConnectEvent_ran hd (henv rfl) h hn) ?_
  rintro _ w₁ ⟨h₁, k₁⟩
  exact wp_within k₁.weaken (onWriteReady_ran hd h₁ (k₁.write trivial hn))

theorem onError_ran (hd : DelegateRests o d) (h : TerminalInv o w) (hn : ¬Failed w) :
    wp (fun _ => True) (onError env d) (fun _ w' => TerminalInv o w' ∧ Ran False w w') w :=
  error_ran hd h hn .ECONNRESET False.elim

end Handlers

section Calls

variable {o : Opening} {env : Env} {d : Delegate π} {w : World Stream π}
  {R : World Stream π → World Stream π → Prop} [IsPreorder (World Stream π) R]

/-- Plain streams on which writing is not started after an error. -/
def StartsBefore (w : World Stream π) : Event → Prop
  | .call (.cntl codes) => .WRITE_START ∈ codes → ¬Failed w
  | .call (.enableSsl _) => False
  | _ => True

instance (w : World Stream π) : (e : Event) → Decidable (StartsBefore w e)
  | .call (.cntl codes) => inferInstanceAs (Decidable (.WRITE_START ∈ codes → ¬Failed w))
  | .call (.enableSsl _) => inferInstanceAs (Decidable False)
  | .call (.write _) | .call (.setPartial _) | .call (.borrow _) | .call (.frameReturn _)
  | .call (.fill ..) | .read | .write | .error => inferInstanceAs (Decidable True)

/-- The codes that leave the write side alone rest. -/
theorem resting_cntlCode (hd : DelegateRests o d) {c : Cntl} (hs : c ≠ .WRITE_START)
    (hw : c ≠ .WRITE_SHUTDOWN) : Resting o (cntlCode env d c) := by
  cases c with
  | READ_START => exact (resting_steady (steady_readSetEvent _)).bind fun _ => preserves_pure _
  | READ_STOP => exact (resting_steady (steady_readUnsetEvent _)).bind fun _ => preserves_pure _
  | READ_PAUSE => exact resting_cntlReadPause true
  | READ_RESUME => exact resting_cntlReadPause false
  | WRITE_START => exact absurd rfl hs
  | WRITE_STOP => exact (resting_steady (steady_writeUnsetEvent _)).bind fun _ => preserves_pure _
  | WRITE_SHUTDOWN => exact absurd rfl hw
  | ABORT => exact resting_cntlAbort hd

/-- Writing is started before the write side is shut down. -/
theorem cntl_within (hd : DelegateRests o d) (hR : ∀ w w', Rests w w' → R w w')
    (herr : FailsWithin o env d R) (h : TerminalInv o w) {codes : Finset Cntl}
    (hstart : .WRITE_START ∈ codes → ¬Failed w) :
    wp (fun _ => True) (cntl env d codes) (fun _ w' => TerminalInv o w' ∧ R w w') w := by
  have hlast : Preserves (fun _ => True) (TerminalInv o) R (cntlCodes env d
      ([Cntl.WRITE_SHUTDOWN, .ABORT].filter (· ∈ codes))) := by
    refine cntlCodes_preserves fun c hc w h => ?_
    by_cases hw : c = .WRITE_SHUTDOWN
    · subst hw
      exact cntlWriteShutdown_within hd hR herr h
    · have hs : c ≠ .WRITE_START := by rintro rfl; simp at hc
      refine wp_mono (resting_cntlCode hd hs hw w h) ?_
      rintro _ w' ⟨h', k'⟩
      exact ⟨h', hR _ _ k'⟩
  have hfirst : wp (fun _ => True) (cntlCodes env d ([Cntl.READ_START, .READ_STOP, .READ_PAUSE,
      .READ_RESUME, .WRITE_START, .WRITE_STOP].filter (· ∈ codes)))
      (fun _ w' => TerminalInv o w' ∧ Rests w w') w := by
    by_cases hc : .WRITE_START ∈ codes
    · -- no code up to here raises an error
      refine wp_mono ((cntlCodes_preserves fun c hc w h => ?_ : Preserves (fun _ => True)
        (fun w => TerminalInv o w ∧ ¬Failed w) Rests _) w ⟨h, hstart hc⟩)
        fun _ w' h' => ⟨h'.1.1, h'.2⟩
      by_cases hs : c = .WRITE_START
      · subst hs
        obtain ⟨h₁, k₁⟩ := h.1.plainly h.2 (plainly_writeSetEvent _)
        exact ⟨⟨h₁, mt k₁.failed.mp h.2⟩, k₁⟩
      · have hw : c ≠ .WRITE_SHUTDOWN := by rintro rfl; simp at hc
        refine wp_mono (resting_cntlCode hd hs hw w h.1) ?_
        rintro _ w' ⟨h', k'⟩
        exact ⟨⟨h', mt k'.failed.mp h.2⟩, k'⟩
    · refine cntlCodes_preserves (fun c hm => ?_) w h
      refine resting_cntlCode hd ?_ ?_
      · rintro rfl
        exact hc (by simpa using hm)
      · rintro rfl
        simp at hm
  have hall : Cntl.all = [Cntl.READ_START, .READ_STOP, .READ_PAUSE, .READ_RESUME, .WRITE_START,
      .WRITE_STOP] ++ [.WRITE_SHUTDOWN, .ABORT] := rfl
  unfold cntl
  rw [hall, List.filter_append, wp_cntlCodes_append]
  refine wp_mono hfirst ?_
  rintro _ w₁ ⟨h₁, k₁⟩
  exact wp_within (hR _ _ k₁) (hlast w₁ h₁)

theorem call_within (hd : DelegateRests o d) (hR : ∀ w w', Rests w w' → R w w')
    (herr : FailsWithin o env d R) (c : Call) :
    Preserves (fun _ => True) (TerminalInv o) R (c.exec env d StartsBefore) := by
  intro w h
  unfold Call.exec
  rw [wp_bind, wp_get, wp_when]
  refine ⟨?_, fun _ => ⟨h, refl_of R w⟩⟩
  rintro ⟨_, hrun⟩
  have hrest {α : Type} {m : StreamM π α} (hm : Resting o m) :
      wp (fun _ => True) m (fun _ w' => TerminalInv o w' ∧ R w w') w :=
    wp_mono (hm w h) fun _ w' h' => ⟨h'.1, hR _ _ h'.2⟩
  cases c with
  | write f =>
    rw [Call.perform, wp_bind]
    exact write_within hd hR herr h f
  | cntl codes =>
    rw [Call.perform, wp_bind]
    exact cntl_within hd hR herr h hrun
  | enableSsl r => exact hrun.elim
  | setPartial b =>
    have hset : ∀ s, Steady s { s with readPartial := b } := fun s =>
      ⟨fun _ => ⟨rfl, id, id, id⟩, rfl, rfl, id, rfl, id, id, Or.inl rfl⟩
    exact hrest (resting_steady hset)
  | borrow type =>
    rw [Call.perform, wp_bind]
    exact hrest (resting_poolBorrow env.toContext type "application" 1)
  | frameReturn f => exact hrest (resting_frameReturn env.toContext f)
  | fill f type vecs vecPosition data =>
    exact hrest ((resting_getFrame f).bind fun x => resting_setFrame f _)

end Calls

section Runs

variable {o : Opening} {env env' : Env} {d : Delegate π} {w w' : World Stream π}

/-- Between events a failed stream is stopped. -/
def Halted (w : World Stream π) : Prop :=
  Failed w → w.socket.readWatcher = false ∧ w.socket.writeWatcher = false

theorem Ran.halted (h : Ran False w w') (hs : Halted w) : Halted w' := by
  intro hf
  by_cases hw : Failed w
  · obtain ⟨hr, hw'⟩ := hs hw
    have hcalm := h.calmer hw
    exact ⟨Bool.not_eq_true _ ▸ fun ht => by simp [hcalm.readWatcher ht] at hr,
      Bool.not_eq_true _ ▸ fun ht => by simp [hcalm.writeWatcher ht] at hw'⟩
  · exact h.stopped hw hf

theorem event_terminal (hd : DelegateRests o d) (henv : o = .connect → Careful env) (e : Event)
    (h : TerminalInv o w ∧ Halted w) :
    wp (fun _ => True) (e.exec env d StartsBefore) (fun _ w' => TerminalInv o w' ∧ Halted w')
      w := by
  obtain ⟨h, hs⟩ := h
  have hran {m : StreamM π Unit}
      (hm : wp (fun _ => True) m (fun _ w' => TerminalInv o w' ∧ Ran False w w') w) :
      wp (fun _ => True) m (fun _ w' => TerminalInv o w' ∧ Halted w') w :=
    wp_mono hm fun _ w' h' => ⟨h'.1, h'.2.halted hs⟩
  unfold Event.exec
  cases e with
  | call c =>
    exact hran (call_within hd (fun _ _ => Rests.ran) (failsWithin_ran hd False.elim) c w h)
  | read =>
    rw [wp_bind, wp_get, wp_when]
    refine ⟨?_, fun _ => ⟨h, hs⟩⟩
    rintro ⟨hw, -⟩
    refine hran (onRead_ran hd h fun hf => ?_)
    exact absurd hw (by simp [(hs hf).1])
  | write =>
    rw [wp_bind, wp_get, wp_when]
    refine ⟨?_, fun _ => ⟨h, hs⟩⟩
    rintro ⟨hw, -⟩
    refine hran (onWrite_ran hd henv h fun hf => ?_)
    exact absurd hw (by simp [(hs hf).2])
  | error =>
    rw [wp_bind, wp_get, wp_when]
    refine ⟨?_, fun _ => ⟨h, hs⟩⟩
    rintro ⟨hw, _⟩
    have hn : ¬Failed w := fun hf => by simp [hs hf] at hw
    obtain ⟨h₁, k₁⟩ := h.plainly (s := stopped w.socket) hn ⟨rfl, rfl, id⟩
    rw [wp_bind, wp_modifySocket]
    refine wp_mono (onError_ran hd h₁ (mt k₁.failed.mp hn)) ?_
    rintro _ w' ⟨h', k'⟩
    exact ⟨h', k'.halted fun hf => absurd (k₁.failed.mp hf) hn⟩

theorem scripted_rests (hquiet : Quiet env') (script : Script) (n : ℕ) :
    DelegateRests o (scripted (π := π) env' StartsBefore script n) :=
  scripted_preserves (fun _ h => h.tick) (fun _ f _ _ _ h _ => h.setFrame f _)
    (fun _ hd c => call_within hd (fun _ _ => id) hquiet.failsWithin c) n

theorem terminalInv_init (o : Opening) (proto : π) (data : FrameId → ℕ → UInt8) :
    TerminalInv o (World.init (opened o) proto data) := by
  refine ⟨?_, fun ho => ?_, fun pre e f post ht => by simp [World.init] at ht⟩
  · cases o <;> simp [World.init, opened, writeSetEvent_eq, readSetEvent_eq, Stream.init]
  · cases o with
    | connect => exact absurd rfl ho
    | _ => simp [World.init, opened, writeSetEvent_eq, readSetEvent_eq, Stream.init]

theorem TerminalInv.terminal (h : TerminalInv o w) : Terminal w := fun pre e f post ht =>
  have hpast := h.past pre e f post ht
  ⟨hpast.quiet, (List.sublist_append_left _ _).trans hpast.offers, hpast.sysErrno⟩

/-- In every run of a plain stream an error is terminal, if the system `env'` that answers the
calls made in callbacks lets no send fail for good. -/
theorem run_terminal (hquiet : Quiet env') (henv : o = .connect → Careful env) (script : Script)
    (n : ℕ) (proto : π) (data : FrameId → ℕ → UInt8) (events : List Event) :
    wp (fun _ => True) (run env (scripted env' StartsBefore script n) StartsBefore events)
      (fun _ => Terminal) (World.init (opened o) proto data) := by
  refine wp_mono (wp_forM (fun e _ w h => event_terminal (scripted_rests hquiet script n) henv e h)
    ⟨terminalInv_init o proto data, ?_⟩) fun _ w h => h.1.terminal
  rintro ⟨_, hx, -⟩
  simp [World.init] at hx

end Runs

section Examples

-- the run below a closed precondition is evaluated by the kernel alone
attribute [local irreducible] wp

/-- A system that delivers bytes but loses the connection when something is sent, and a pool with
a new frame at any time. -/
def brokenEnv : Env :=
  { idleEnv with
    framePool := fun n => some ⟨0, n⟩
    sockEstMaxReadLoops := 2
    recv := fun _ _ => .data [7]
    send := fun _ _ => .failed .ECONNRESET }

/-- A delegate that sends back every byte that it reads. -/
def echoScript : Script :=
  { idleScript with
    getReadFrame := some fun n => ([.borrow .rawData], some (⟨0, n + 1⟩, [⟨0, 0, 1, 1⟩], 0))
    read := fun f _ _ =>
      ([.fill f .rawData [⟨0, 0, 1, 1⟩] 0 fun _ => 7, .write f], none) }

/-- Sending from the event loop to a connection that was lost. -/
theorem run_terminal_write :
    wp (fun _ => True) (run (π := Unit) brokenEnv (scripted idleEnv StartsBefore idleScript 1)
      StartsBefore [.call (.borrow .rawData),
        .call (.fill ⟨0, 0⟩ .rawData [⟨0, 0, 1, 1⟩] 0 fun _ => 7),
        .call (.write ⟨0, 0⟩), .write, .read])
      (fun _ => Terminal) (World.init (opened .accept) () fun _ _ => 0) := by
  refine run_terminal (fun s n e he => ?_) (fun ho => by cases ho) idleScript 1 () _ _
  obtain rfl := SendResult.failed.inj he
  rfl

/-- Plain streams. -/
def Plaintext (_ : World Stream π) : Event → Prop
  | .call (.enableSsl _) => False
  | _ => True

instance (w : World Stream π) : (e : Event) → Decidable (Plaintext w e)
  | .call (.enableSsl _) => inferInstanceAs (Decidable False)
  | .call (.write _) | .call (.cntl _) | .call (.setPartial _) | .call (.borrow _)
  | .call (.frameReturn _) | .call (.fill ..) | .read | .write | .error =>
    inferInstanceAs (Decidable True)

/-- The read loop receives again after the delegate's own write has failed. -/
theorem not_run_terminal_all :
    ¬∀ (env : Env) (script : Script) (n : ℕ) (o : Opening) (data : FrameId → ℕ → UInt8)
      (events : List Event),
      wp (fun _ => True) (run (π := Unit) env (scripted env Plaintext script n) Plaintext events)
        (fun _ => Terminal) (World.init (opened o) () data) := by
  intro h
  obtain ⟨_, w, hw, ht⟩ := wp_observe
    (h brokenEnv echoScript 1 .accept (fun _ _ => 0) [.write, .read])
    (g := fun r => r.2.trace) (b := [
      .obtained ⟨0, 1⟩, .recv ⟨0, 0, 1, 1⟩ 1 [7], .offer ⟨0, 1⟩ .rawData,
      .accepted ⟨0, 1⟩ .rawData [7], .send [], .error (some .ECONNRESET) none,
      .shutdown .SHUT_RDWR, .read ⟨0, 1⟩ [7] true false, .obtained ⟨0, 8⟩,
      .recv ⟨0, 0, 1, 1⟩ 1 [7], .offer ⟨0, 8⟩ .rawData, .read ⟨0, 8⟩ [7] true false])
    (by decide +kernel)
  obtain ⟨hq, -⟩ := hw [.obtained ⟨0, 1⟩, .recv ⟨0, 0, 1, 1⟩ 1 [7], .offer ⟨0, 1⟩ .rawData,
    .accepted ⟨0, 1⟩ .rawData [7], .send []] (some .ECONNRESET) none _ ht
  exact hq (.recv ⟨0, 0, 1, 1⟩ 1 [7]) (by simp) trivial

end Examples

end Stream

end FrameTransporter
