import FrameTransporter.Sock.Stream.EndFrames
import FrameTransporter.Sock.Stream.WriteSide

/-! # The end of the stream is announced once

At the end of its input a stream gives the delegate one end-of-stream frame. The
read shutdown that does so keeps no record of it, so the announcement is repeated
by a second abort and lost when the pool has no frame. It is made exactly once in
every run in which reading ends once, and is not resumed after it ended without a
frame.
-/

namespace FrameTransporter

open Hoare

namespace Stream

open ReadEvent WriteEvent SslError

variable {π : Type}

def offers (t : List Io) : ℕ := t.countP fun
  | .offer .. => true
  | _ => false

def reads (t : List Io) : ℕ := t.countP fun
  | .read .. => true
  | _ => false

/-- The delegate is being given a frame. -/
def Offering (w : World Stream π) : Prop := reads w.trace < offers w.trace

instance (w : World Stream π) : Decidable (Offering w) := inferInstanceAs (Decidable (_ < _))

/-- Once reading has ended the delegate was given one end-of-stream frame, unless reading is
paused. -/
structure EndsOnce (w : World Stream π) : Prop where
  once : ((ends w.trace).filterMap id).length ≤ 1
  offered : ∀ pre f post, w.trace = pre ++ .readEnd (some f) :: post →
    ∃ post', post = .offer f .endOfStream :: post'
  resumed : Ended w → w.socket.readPauseLevel = 0 → ((ends w.trace).filterMap id).length = 1

/-- The delegate is given one end-of-stream frame at most, and exactly one once reading has ended,
unless reading is paused. -/
structure GivenOnce (w : World Stream π) : Prop where
  once : (endOffers w.trace).length ≤ 1
  resumed : Ended w → w.socket.readPauseLevel = 0 → (endOffers w.trace).length = 1

/-- Reading ends once at most. After that it stays shut, and paused if there was no frame, and
nothing is offered but the end-of-stream frame. -/
structure EndInv (w : World Stream π) : Prop where
  level : 0 ≤ w.socket.readPauseLevel
  once : (ends w.trace).length ≤ 1
  offered : ∀ pre f post, w.trace = pre ++ .readEnd (some f) :: post →
    ∃ post', post = .offer f .endOfStream :: post'
  plain : w.socket.ssl = false → SSL_READ_WANT_WRITE ∉ w.socket.writeEvents
  shut : Ended w → w.socket.readShutdown = true ∧ w.socket.readWatcher = false ∧
    SSL_READ_WANT_WRITE ∉ w.socket.writeEvents
  exhausted : none ∈ ends w.trace → 1 ≤ w.socket.readPauseLevel
  quiet : ∀ pre eos post, w.trace = pre ++ .readEnd eos :: post → offers post = eos.toList.length

/-- What code outside the read handler does. In a callback, which `b` tells, it ends reading only
while reading is not shut, and starts reading only then. Under `c` it ends reading only while the
delegate is given a frame. -/
structure Stays (b c : Prop) (w w' : World Stream π) : Prop where
  ended : Ended w → Ended w'
  shut : w.socket.readShutdown = true → w'.socket.readShutdown = true
  watcher : w.socket.readShutdown = true → w.socket.readWatcher = false →
    w'.socket.readWatcher = false
  sslRead : SSL_READ_WANT_WRITE ∈ w'.socket.writeEvents →
    SSL_READ_WANT_WRITE ∈ w.socket.writeEvents
  depth : offers w'.trace + reads w.trace = offers w.trace + reads w'.trace
  start : b → w.socket.readShutdown = true → READ_WANT_READ ∈ w'.socket.readEvents →
    READ_WANT_READ ∈ w.socket.readEvents
  want : b → (Ended w → READ_WANT_READ ∉ w.socket.readEvents) → Ended w' →
    READ_WANT_READ ∉ w'.socket.readEvents
  calm : (b ∧ w.socket.readShutdown = true) ∨ (c ∧ ¬Offering w) → Ended w' → Ended w

/-- A change of the socket between callbacks. -/
structure Gentle (s s' : Stream) : Prop where
  level : s.readPauseLevel ≤ s'.readPauseLevel
  shut : s.readShutdown = true → s'.readShutdown = true
  watcher : s.readShutdown = true → s.readWatcher = false → s'.readWatcher = false
  sslRead : SSL_READ_WANT_WRITE ∈ s'.writeEvents → SSL_READ_WANT_WRITE ∈ s.writeEvents
  ssl : s'.ssl = false → s.ssl = false

/-- A change of the socket that any code may make. -/
structure Mild (s s' : Stream) : Prop extends Gentle s s' where
  start : s.readShutdown = true → READ_WANT_READ ∈ s'.readEvents → READ_WANT_READ ∈ s.readEvents

section Steps

variable {b c b' c' : Prop} {w w' : World Stream π} {s s' s'' : Stream}

theorem Stays.offering (h : Stays b c w w') : Offering w' ↔ Offering w := by
  have hd := h.depth
  unfold Offering
  omega

theorem Stays.weaken (h : Stays b c w w') (hb : b' → b) (hc : c' → c) : Stays b' c' w w' :=
  ⟨h.ended, h.shut, h.watcher, h.sslRead, h.depth, fun hp => h.start (hb hp),
    fun hp => h.want (hb hp), fun hp => h.calm (hp.imp (And.imp_left hb) (And.imp_left hc))⟩

instance : IsPreorder (World Stream π) (Stays b c) where
  refl _ := ⟨id, id, fun _ => id, id, rfl, fun _ _ => id, fun _ => id, fun _ => id⟩
  trans w w' w'' h h' := by
    refine ⟨h'.ended ∘ h.ended, h'.shut ∘ h.shut, fun hs => h'.watcher (h.shut hs) ∘ h.watcher hs,
      h.sslRead ∘ h'.sslRead, ?_, fun hb hs => h.start hb hs ∘ h'.start hb (h.shut hs),
      fun hb => h'.want hb ∘ h.want hb, fun hc he => ?_⟩
    · have hd := h.depth
      have hd' := h'.depth
      omega
    · refine h.calm hc (h'.calm ?_ he)
      exact hc.imp (And.imp_right h.shut) (And.imp_right (mt h.offering.mp))

theorem Gentle.trans (h : Gentle s s') (h' : Gentle s' s'') : Gentle s s'' where
  level := h.level.trans h'.level
  shut := h'.shut ∘ h.shut
  watcher hs := h'.watcher (h.shut hs) ∘ h.watcher hs
  sslRead := h.sslRead ∘ h'.sslRead
  ssl := h.ssl ∘ h'.ssl

theorem Mild.trans (h : Mild s s') (h' : Mild s' s'') : Mild s s'' where
  toGentle := h.toGentle.trans h'.toGentle
  start hs := h.start hs ∘ h'.start (h.shut hs)

theorem gentle_readSetEvent (a : Finset ReadEvent) (s : Stream) : Gentle s (readSetEvent a s) := by
  rw [readSetEvent_eq]
  refine ⟨le_rfl, id, fun hs hw => ?_, id, id⟩
  exact (if_neg fun hc => by simp [hs] at hc).trans hw

theorem mild_readSetEvent {a : Finset ReadEvent} (s : Stream)
    (ha : s.readShutdown = true → READ_WANT_READ ∉ a) : Mild s (readSetEvent a s) := by
  refine ⟨gentle_readSetEvent a s, fun hs he => ?_⟩
  rw [readSetEvent_eq] at he
  exact (Finset.mem_union.mp he).resolve_right (ha hs)

theorem mild_readUnsetEvent (a : Finset ReadEvent) (s : Stream) : Mild s (readUnsetEvent a s) := by
  rw [readUnsetEvent_eq]
  refine ⟨⟨le_rfl, id, fun hs _ => ?_, id, id⟩, fun _ he => (Finset.mem_sdiff.mp he).1⟩
  exact if_pos (Or.inr (Or.inl hs))

theorem mild_writeSetEvent {a : Finset WriteEvent} (s : Stream) (ha : SSL_READ_WANT_WRITE ∉ a) :
    Mild s (writeSetEvent a s) := by
  rw [writeSetEvent_eq]
  exact ⟨⟨le_rfl, id, fun _ => id, fun he => (Finset.mem_union.mp he).resolve_right ha, id⟩,
    fun _ => id⟩

theorem mild_writeUnsetEvent (a : Finset WriteEvent) (s : Stream) :
    Mild s (writeUnsetEvent a s) := by
  rw [writeUnsetEvent_eq]
  exact ⟨⟨le_rfl, id, fun _ => id, fun he => (Finset.mem_sdiff.mp he).1, id⟩, fun _ => id⟩

theorem mild_awaitWrite (s : Stream) : Mild s (awaitWrite s) := by
  have h : Mild s { s with writeReady := false } := ⟨⟨le_rfl, id, fun _ => id, id, id⟩, fun _ => id⟩
  exact h.trans (mild_writeSetEvent _ (by simp))

theorem mild_paused (s : Stream) : Mild s (paused s) := by
  have hl : Mild s { s with readPauseLevel := s.readPauseLevel + 1 } :=
    ⟨⟨by simp, id, fun _ => id, id, id⟩, fun _ => id⟩
  unfold paused
  split
  · exact hl.trans (mild_readUnsetEvent _ _)
  · exact hl

/-- The stopped watchers of an error. -/
theorem mild_stopped (s : Stream) : Mild s (stopped s) :=
  ⟨⟨le_rfl, id, fun _ _ => rfl, id, id⟩, fun _ => id⟩

theorem EndInv.gentle (h : EndInv w) (hs : Gentle w.socket s) :
    EndInv (w.setSocket s) ∧ Stays False c w (w.setSocket s) where
  left := by
    refine ⟨h.level.trans hs.level, h.once, h.offered,
      fun hp => mt hs.sslRead (h.plain (hs.ssl hp)),
      fun he => ?_, fun hn => (h.exhausted hn).trans hs.level, h.quiet⟩
    obtain ⟨hsh, hw, hr⟩ := h.shut he
    exact ⟨hs.shut hsh, hs.watcher hsh hw, mt hs.sslRead hr⟩
  right := ⟨id, hs.shut, hs.watcher, hs.sslRead, rfl, False.elim, False.elim, fun _ => id⟩

theorem EndInv.mild (h : EndInv w) (hs : Mild w.socket s) :
    EndInv (w.setSocket s) ∧ Stays b c w (w.setSocket s) where
  left := (h.gentle (c := c) hs.toGentle).1
  right := by
    refine ⟨id, hs.shut, hs.watcher, hs.sslRead, rfl, fun _ => hs.start, fun _ hw he => ?_,
      fun _ => id⟩
    exact mt (hs.start (h.shut he).1) (hw he)

theorem EndInv.tick (h : EndInv w) : EndInv w.tick ∧ Stays b c w w.tick :=
  ⟨{ h with }, id, id, fun _ => id, id, rfl,
    fun _ _ => id, fun _ => id, fun _ => id⟩

theorem EndInv.setFrame (h : EndInv w) (f : FrameId) (x : Frame) :
    EndInv (w.setFrame f x) ∧ Stays b c w (w.setFrame f x) :=
  ⟨{ h with }, id, id, fun _ => id, id, rfl,
    fun _ _ => id, fun _ => id, fun _ => id⟩

theorem EndInv.setOwner (h : EndInv w) (f : FrameId) (r : Owner) :
    EndInv (w.setOwner f r) ∧ Stays b c w (w.setOwner f r) :=
  ⟨{ h with }, id, id, fun _ => id, id, rfl,
    fun _ _ => id, fun _ => id, fun _ => id⟩

/-- The end of reading is not what is recorded. -/
def Inner : Io → Prop
  | .readEnd _ => False
  | _ => True

theorem ends_record {x : Io} (hx : Inner x) : ends (w.record x).trace = ends w.trace := by
  rw [World.record_trace, ends_append]
  cases x with
  | readEnd eos => exact hx.elim
  | _ => exact List.append_nil _

theorem ended_record {x : Io} (hx : Inner x) : Ended (w.record x) ↔ Ended w := by
  rw [Ended, ends_record hx, Ended]

theorem ended_of_split {pre post : List Io} {eos : Option FrameId}
    (ht : w.trace = pre ++ .readEnd eos :: post) : Ended w := by
  rw [Ended, ht, ends_append]
  exact List.append_ne_nil_of_right_ne_nil _ (by simp [ends])

/-- Only before reading has ended more frames are offered. -/
theorem EndInv.record {x : Io} (h : EndInv w) (hx : Inner x) (hq : Ended w → offers [x] = 0) :
    EndInv (w.record x) := by
  have he := ends_record (w := w) hx
  refine ⟨h.level, he ▸ h.once, fun pre f post ht => ?_, h.plain,
    fun hn => h.shut ((ended_record hx).mp hn),
    fun hn => h.exhausted (he ▸ hn), fun pre eos post ht => ?_⟩
  · rcases concat_eq_split ht with ⟨-, rfl, -⟩ | ⟨post', rfl, ht'⟩
    · exact hx.elim
    · obtain ⟨post'', rfl⟩ := h.offered pre f post' ht'
      exact ⟨_, rfl⟩
  · rcases concat_eq_split ht with ⟨-, rfl, -⟩ | ⟨post', rfl, ht'⟩
    · exact hx.elim
    · rw [offers, List.countP_append]
      have hnone := hq (ended_of_split ht')
      have hpost := h.quiet pre eos post' ht'
      unfold offers at hnone hpost
      omega

theorem EndInv.offer (h : EndInv w) (hn : ¬Ended w) (f : FrameId) (type : FrameType) :
    EndInv (w.record (.offer f type)) :=
  h.record (x := .offer f type) trivial fun he => absurd he hn

/-- What is recorded besides offers, reads and the end of reading. -/
def Aside : Io → Prop
  | .readEnd _ | .offer .. | .read .. => False
  | _ => True

theorem Aside.inner {x : Io} (hx : Aside x) : Inner x := by
  cases x <;> first | exact trivial | exact hx.elim

theorem EndInv.aside {x : Io} (h : EndInv w) (hx : Aside x) :
    EndInv (w.record x) ∧ Stays b c w (w.record x) := by
  have hi := hx.inner
  refine ⟨h.record hi fun _ => ?_, (ended_record hi).mpr, id, fun _ => id, id, ?_, fun _ _ => id,
    fun _ hw hn => hw ((ended_record hi).mp hn), fun _ hn => (ended_record hi).mp hn⟩
  all_goals cases x <;> first | exact hx.elim | simp [offers, reads]

end Steps

section Functions

variable {b c : Prop} {env : Env} {d : Delegate π} {w : World Stream π} {f : FrameId}

/-- Every return of `m` has the invariant again, and stays. -/
abbrev Staying {α : Type} (b c : Prop) (m : StreamM π α) : Prop :=
  Preserves (fun _ => True) EndInv (Stays b c) m

/-- The delegate stays in every callback. -/
abbrev DelegateStays (b c : Prop) (d : Delegate π) : Prop :=
  d.Preserves (fun _ => True) EndInv (Stays b c)

theorem staying_mild {g : Stream → Stream} (hg : ∀ s, Mild s (g s)) :
    Staying (π := π) b c (modifySocket g) := fun w h => h.mild (hg w.socket)

theorem staying_ask {α : Type} {q : ℕ → α} : Staying (π := π) b c (ask q) := fun _ h => h.tick

theorem staying_getFrame (f : FrameId) : Staying (π := π) b c (getFrame f) :=
  fun w h => ⟨h, refl_of (Stays b c) w⟩

theorem staying_setFrame (f : FrameId) (x : Frame) : Staying (π := π) b c (setFrame f x) :=
  fun _ h => h.setFrame f x

theorem staying_setOwner (f : FrameId) (r : Owner) : Staying (π := π) b c (setOwner f r) :=
  fun _ h => h.setOwner f r

theorem staying_record {x : Io} (hx : Aside x) : Staying (π := π) b c (FrameTransporter.record x) :=
  fun _ h => h.aside hx

theorem staying_liftM {α : Type} (r : Except Fault α) : Staying (π := π) b c (liftM r) := by
  cases r with
  | error e => exact fun _ _ => trivial
  | ok a => exact preserves_pure a

theorem WriteStep.mild {s s' : Stream} (h : WriteStep s s') : Mild s s' where
  level := h.readPauseLevel.ge
  shut := h.shut
  watcher := h.watcher
  sslRead := h.sslRead
  ssl := h.ssl.symm.trans
  start _ := h.wantRead

theorem sideSteps_staying : SideSteps (π := π) EndInv (Stays b c) where
  step _ _ h hs := h.mild hs.mild
  tick _ h := h.tick
  setFrame _ f x h _ := h.setFrame f x
  setOwner _ f r h := h.setOwner f r
  enqueue _ _ _ h := ⟨{ h with }, id, id,
    fun _ => id, id, rfl, fun _ _ => id, fun _ => id, fun _ => id⟩
  record _ x h hx := h.aside (by cases x <;> first | exact trivial | exact hx.elim)

/-- The write side stays. -/
theorem DelegateStays.writeSide (hd : DelegateStays b c d) : WriteSide EndInv (Stays b c) d :=
  ⟨sideSteps_staying, hd.error, hd.frameReturn⟩

theorem staying_poolBorrow (ctx : Context) (type : FrameType) (file : String) (line : ℕ) :
    Staying (π := π) b c (poolBorrow ctx type file line) :=
  sideSteps_staying.poolBorrow ctx type file line

theorem staying_frameReturn (ctx : Context) (f : FrameId) :
    Staying (π := π) b c (FrameTransporter.frameReturn ctx f) := sideSteps_staying.frameReturn ctx f

theorem staying_enableSsl (r : SslNew) : Staying (π := π) b c (enableSsl r) := by
  have hstatus : ∀ s : Stream, Mild s { s with sslStatus := 1 } := fun _ =>
    ⟨⟨le_rfl, id, fun _ => id, id, id⟩, fun _ => id⟩
  have hevents : Staying (π := π) b c (do
      modifySocket (writeSetEvent {SSL_HANDSHAKE_WANT_WRITE})
      modifySocket (readSetEvent {SSL_HANDSHAKE_WANT_READ})
      modifySocket (readUnsetEvent {READ_WANT_READ})
      modifySocket fun s => { s with sslStatus := 1 }
      return true) :=
    (staying_mild fun s => mild_writeSetEvent s (by simp)).bind fun _ =>
      (staying_mild fun s => mild_readSetEvent s (by simp)).bind fun _ =>
      (staying_mild (mild_readUnsetEvent _)).bind fun _ => (staying_mild hstatus).bind fun _ =>
      preserves_pure _
  intro w h
  unfold enableSsl
  rw [wp_bind, wp_getSocket, wp_ite]
  refine ⟨fun _ => ⟨h, refl_of (Stays b c) w⟩, fun hs => ?_⟩
  have hssl : Staying (π := π) b c (if r.new = false ∨ r.setFd = false ∨ r.setExData = false then
      return false else do
        modifySocket (writeSetEvent {SSL_HANDSHAKE_WANT_WRITE})
        modifySocket (readSetEvent {SSL_HANDSHAKE_WANT_READ})
        modifySocket (readUnsetEvent {READ_WANT_READ})
        modifySocket fun s => { s with sslStatus := 1 }
        return true) := .ite _ (fun _ => preserves_pure _) fun _ => hevents
  obtain ⟨h₁, k₁⟩ := h.mild (b := b) (c := c) (s := { w.socket with ssl := r.new })
    ⟨⟨le_rfl, id, fun _ => id, id, fun _ => by simpa using hs⟩, fun _ => id⟩
  rw [wp_bind, wp_modifySocket]
  refine wp_mono (hssl _ h₁) ?_
  rintro _ w₂ ⟨h₂, k₂⟩
  exact ⟨h₂, trans_of (Stays b c) k₁ k₂⟩

end Functions

section Closing

variable {b c : Prop} {env : Env} {d : Delegate π} {w w' : World Stream π} {f : FrameId}

/-- The delegate reads a frame, from a state in which it may be handed over. -/
theorem deliver_stays (hd : DelegateStays True c d) (f : FrameId) (last : Bool)
    (h : EndInv (w.record (.offer f (w.heap f).type))) :
    wp (fun _ => True) (deliver d f last) (fun _ w' => EndInv w' ∧ Stays True False w w') w := by
  obtain ⟨h₁, -⟩ := h.setOwner (b := True) (c := c) f .user
  unfold deliver
  rw [wp_bind, wp_getFrame, wp_bind, wp_setOwner, wp_bind, wp_record, wp_bind]
  refine wp_mono (hd.read f _ h₁) ?_
  rintro taken w₂ ⟨h₂, k₂⟩
  have hend : Ended ((w.setOwner f .user).record (.offer f (w.heap f).type)) ↔ Ended w :=
    ended_record trivial
  have hend' : Ended (w₂.record (.read f (w.heap f).contents taken last)) ↔ Ended w₂ :=
    ended_record trivial
  have hd₁ : offers ((w.setOwner f .user).record (.offer f (w.heap f).type)).trace =
      offers w.trace + 1 := by simp [offers]
  have hd₂ : reads ((w.setOwner f .user).record (.offer f (w.heap f).type)).trace =
      reads w.trace := by simp [reads]
  have hd₃ : offers (w₂.record (.read f (w.heap f).contents taken last)).trace =
      offers w₂.trace := by simp [offers]
  have hd₄ : reads (w₂.record (.read f (w.heap f).contents taken last)).trace =
      reads w₂.trace + 1 := by simp [reads]
  have h₃ := h₂.record (x := .read f (w.heap f).contents taken last) trivial fun _ => rfl
  refine ⟨h₃, ⟨fun he => hend'.mpr (k₂.ended (hend.mpr he)), k₂.shut, k₂.watcher,
    k₂.sslRead, ?_, k₂.start, fun hb hw he => ?_, fun hc he => ?_⟩⟩
  · have := k₂.depth
    change offers (w₂.record (.read f (w.heap f).contents taken last)).trace + _ =
      _ + reads (w₂.record (.read f (w.heap f).contents taken last)).trace
    omega
  · exact k₂.want hb (fun he => hw (hend.mp he)) (hend'.mp he)
  · exact hend.mp (k₂.calm (hc.imp id fun hc => hc.1.elim) (hend'.mp he))

theorem deliverOrRelease_stays (hd : DelegateStays True c d) (f : FrameId) (last : Bool)
    (h : EndInv (w.record (.offer f (w.heap f).type))) :
    wp (fun _ => True) (deliverOrRelease env d f last)
      (fun _ w' => EndInv w' ∧ Stays True False w w') w := by
  unfold deliverOrRelease
  rw [wp_bind]
  refine wp_mono (deliver_stays hd f last h) ?_
  rintro taken w₁ ⟨h₁, k₁⟩
  cases taken with
  | true => exact ⟨h₁, k₁⟩
  | false =>
    refine wp_mono (hd.writeSide.releaseFrame f 'R' w₁ h₁) ?_
    rintro _ w₂ ⟨h₂, k₂⟩
    exact ⟨h₂, trans_of (Stays True False) k₁ (k₂.weaken id False.elim)⟩

theorem mild_detach (next : Option FrameId) (s : Stream) : Mild s { s with readFrame := next } :=
  ⟨⟨le_rfl, id, fun _ => id, id, id⟩, fun _ => id⟩

theorem uplinkPartial_stays (hd : DelegateStays True c d) (h : EndInv w) (hn : ¬Ended w) :
    wp (fun _ => True) (uplinkPartial env d) (fun _ w' => EndInv w' ∧ Stays True False w w') w := by
  unfold uplinkPartial
  rw [wp_bind, wp_getSocket]
  cases w.socket.readFrame with
  | none => exact ⟨h, refl_of (Stays True False) w⟩
  | some f =>
    dsimp only
    rw [wp_bind, wp_getFrame, wp_when]
    refine ⟨fun _ => ?_, fun _ => ⟨h, refl_of (Stays True False) w⟩⟩
    obtain ⟨h₁, k₁⟩ := h.mild (b := True) (c := False) (mild_detach none _)
    rw [wp_bind, wp_modifySocket]
    refine wp_mono (deliverOrRelease_stays hd f true (h₁.offer hn f _)) ?_
    rintro _ w₂ ⟨h₂, k₂⟩
    exact ⟨h₂, trans_of (Stays True False) k₁ k₂⟩

/-- The frame that ends the stream is marked as such. -/
theorem endOfStreamFrame_stays (h : EndInv w) :
    wp (fun _ => True) (endOfStreamFrame env) (fun r w' => EndInv w' ∧ Stays True False w w' ∧
      ∀ f, r = some f → (w'.heap f).type = .endOfStream) w := by
  have hpool : wp (fun _ => True) (poolBorrow (σ := Stream) (π := π) env.toContext .endOfStream
      "stream.c" 583) (fun r w' => EndInv w' ∧ Stays True False w w' ∧
        ∀ f, r = some f → (w'.heap f).type = .endOfStream) w := by
    have hstay := staying_poolBorrow (b := True) (c := False) env.toContext .endOfStream "stream.c"
      583 w h
    refine wp_mono (wp_and hstay (poolBorrow_type env.toContext .endOfStream "stream.c" 583)) ?_
    rintro r w' ⟨⟨h', k'⟩, ht⟩
    exact ⟨h', k', ht⟩
  unfold endOfStreamFrame
  rw [wp_bind, wp_getSocket]
  cases w.socket.readFrame with
  | none => exact hpool
  | some f =>
    dsimp only
    rw [wp_bind, wp_getFrame, wp_ite]
    refine ⟨fun _ => ?_, fun _ => hpool⟩
    obtain ⟨h₁, k₁⟩ := h.mild (b := True) (c := False) (mild_detach none _)
    obtain ⟨h₂, k₂⟩ := h₁.setFrame (b := True) (c := False) f
      { (w.heap f).formatEmpty with type := .endOfStream }
    refine ⟨h₂, trans_of (Stays True False) k₁ k₂, fun g hg => ?_⟩
    obtain rfl := Option.some.inj hg
    simp

/-- Reading is shut, and only the end is still to be announced. -/
structure Closing (w : World Stream π) : Prop where
  ended : ¬Ended w
  shut : w.socket.readShutdown = true
  watcher : w.socket.readWatcher = false
  sslRead : SSL_READ_WANT_WRITE ∉ w.socket.writeEvents
  start : READ_WANT_READ ∉ w.socket.readEvents

/-- Closing goes on while the delegate is called back. -/
theorem Closing.stays (h : Closing w) (k : Stays True False w w') : Closing w' where
  ended := mt (k.calm (Or.inl ⟨trivial, h.shut⟩)) h.ended
  shut := k.shut h.shut
  watcher := k.watcher h.shut h.watcher
  sslRead := mt k.sslRead h.sslRead
  start := mt (k.start trivial h.shut) h.start

theorem ends_readEnd (eos : Option FrameId) :
    ends (w.record (.readEnd eos)).trace = ends w.trace ++ [eos] := by
  rw [World.record_trace, ends_append]
  rfl

theorem offers_readEnd (eos : Option FrameId) :
    offers (w.record (.readEnd eos)).trace = offers w.trace := by simp [offers]

theorem reads_readEnd (eos : Option FrameId) :
    reads (w.record (.readEnd eos)).trace = reads w.trace := by simp [reads]

/-- The announcement is recorded right before the frame is handed over. -/
theorem EndInv.announce (h : EndInv w) (hc : Closing w) (ht : (w.heap f).type = .endOfStream) :
    EndInv ((w.record (.readEnd (some f))).record (.offer f (w.heap f).type)) := by
  have hnil : ends w.trace = [] := not_not.mp hc.ended
  have hends : ends ((w.record (.readEnd (some f))).record (.offer f (w.heap f).type)).trace =
      [some f] := by
    rw [ends_record (x := .offer f (w.heap f).type) trivial, ends_readEnd, hnil]
    rfl
  refine ⟨h.level, (congrArg List.length hends).le, fun pre g post hp => ?_, h.plain,
    fun _ => ⟨hc.shut, hc.watcher, hc.sslRead⟩, fun hm => ?_, fun pre eos post hp => ?_⟩
  · rcases concat_eq_split hp with ⟨-, he, -⟩ | ⟨post', rfl, hp'⟩
    · cases he
    rcases concat_eq_split hp' with ⟨rfl, he, -⟩ | ⟨post'', -, hp''⟩
    · obtain rfl : f = g := by simpa using he
      exact ⟨[], by simp [ht]⟩
    · exact absurd (ended_of_split hp'') hc.ended
  · rw [hends] at hm
    simp at hm
  · rcases concat_eq_split hp with ⟨-, he, -⟩ | ⟨post', rfl, hp'⟩
    · cases he
    rcases concat_eq_split hp' with ⟨rfl, he, -⟩ | ⟨post'', -, hp''⟩
    · obtain rfl : some f = eos := Io.readEnd.inj he
      rfl
    · exact absurd (ended_of_split hp'') hc.ended

/-- Without a frame reading is paused. -/
theorem EndInv.pauseNoframes (h : EndInv w) (hc : Closing w) :
    EndInv ((w.record (.readEnd none)).setSocket
      (paused { w.socket with readPausedNoframes := true })) := by
  have hnil : ends w.trace = [] := not_not.mp hc.ended
  have hends : ends (w.record (.readEnd none)).trace = [none] := by
    rw [ends_readEnd, hnil]
    rfl
  have hnote : Mild w.socket { w.socket with readPausedNoframes := true } :=
    ⟨⟨le_rfl, id, fun _ => id, id, id⟩, fun _ => id⟩
  have hm : Mild w.socket (paused { w.socket with readPausedNoframes := true }) :=
    hnote.trans (mild_paused _)
  have hl : (paused { w.socket with readPausedNoframes := true }).readPauseLevel =
      w.socket.readPauseLevel + 1 := by
    unfold paused
    split
    · rw [readUnsetEvent_eq]
    · rfl
  have hlevel := h.level
  refine ⟨h.level.trans hm.level, (congrArg List.length hends).le, fun pre g post hp => ?_,
    fun hs => mt hm.sslRead (h.plain (hm.ssl hs)),
    fun _ => ⟨hm.shut hc.shut, hm.watcher hc.shut hc.watcher, mt hm.sslRead hc.sslRead⟩,
    fun _ => ?_, fun pre eos post hp => ?_⟩
  · rcases concat_eq_split hp with ⟨-, he, -⟩ | ⟨post', -, hp'⟩
    · cases he
    · exact absurd (ended_of_split hp') hc.ended
  · rw [World.setSocket_socket, hl]
    omega
  · rcases concat_eq_split hp with ⟨rfl, he, -⟩ | ⟨post', -, hp'⟩
    · obtain rfl : none = eos := Io.readEnd.inj he
      rfl
    · exact absurd (ended_of_split hp') hc.ended

/-- What a read shutdown leaves. -/
structure Closed (w w' : World Stream π) : Prop where
  ended : Ended w'
  shut : w'.socket.readShutdown = true
  watcher : w'.socket.readWatcher = false
  sslRead : SSL_READ_WANT_WRITE ∈ w'.socket.writeEvents →
    SSL_READ_WANT_WRITE ∈ w.socket.writeEvents
  start : READ_WANT_READ ∉ w'.socket.readEvents
  depth : offers w'.trace + reads w.trace = offers w.trace + reads w'.trace

/-- A read shutdown ends reading, if it had not ended before. -/
theorem readShutdownNow_closed (hd : DelegateStays True c d) (h : EndInv w) (hn : ¬Ended w)
    (hr : SSL_READ_WANT_WRITE ∉ w.socket.writeEvents) :
    wp (fun _ => True) (readShutdownNow env d) (fun _ w' => EndInv w' ∧ Closed w w') w := by
  have hshut : Mild w.socket
      { readUnsetEvent {READ_WANT_READ} w.socket with readShutdown := true } := by
    have hm := mild_readUnsetEvent {READ_WANT_READ} w.socket
    exact ⟨⟨hm.level, fun _ => rfl, hm.watcher, hm.sslRead, hm.ssl⟩, hm.start⟩
  obtain ⟨h₁, k₁⟩ := h.mild (b := False) (c := False) hshut
  have hc₁ : Closing (w.setSocket
      { readUnsetEvent {READ_WANT_READ} w.socket with readShutdown := true }) := by
    refine ⟨hn, rfl, ?_, mt hshut.sslRead hr, ?_⟩
    · rw [World.setSocket_socket, readUnsetEvent_eq]
      exact if_pos (Or.inr (Or.inr h.level))
    · rw [World.setSocket_socket, readUnsetEvent_eq]
      simp
  unfold readShutdownNow cntlReadStop
  rw [wp_bind, wp_bind, wp_modifySocket, wp_pure, wp_bind, wp_modifySocket,
    World.setSocket_setSocket, World.setSocket_socket, wp_bind]
  refine wp_mono (uplinkPartial_stays hd h₁ hn) ?_
  rintro _ w₂ ⟨h₂, k₂⟩
  rw [wp_bind]
  refine wp_mono (endOfStreamFrame_stays h₂) ?_
  rintro r w₃ ⟨h₃, k₃, ht⟩
  have hc₃ : Closing w₃ := (hc₁.stays k₂).stays k₃
  have k : Stays False False w w₃ :=
    trans_of (Stays False False) k₁ ((trans_of (Stays True False) k₂ k₃).weaken False.elim id)
  have hdepth : offers w₃.trace + reads w.trace = offers w.trace + reads w₃.trace := k.depth
  have hsub : SSL_READ_WANT_WRITE ∉ w₃.socket.writeEvents := hc₃.sslRead
  rw [wp_bind, wp_record]
  cases r with
  | none =>
    have hm := mild_paused { w₃.socket with readPausedNoframes := true }
    unfold Stream.pauseNoframes
    rw [wp_bind, wp_modifySocket, wp_bind, wp_cntlReadPause, if_pos rfl]
    refine ⟨h₃.pauseNoframes hc₃, ?_, hm.shut hc₃.shut, hm.watcher hc₃.shut hc₃.watcher,
      fun he => absurd (hm.sslRead he) hsub, mt (hm.start hc₃.shut) hc₃.start, ?_⟩
    · exact ended_readEnd none
    · change offers (w₃.record (.readEnd none)).trace + _ =
        _ + reads (w₃.record (.readEnd none)).trace
      rwa [offers_readEnd, reads_readEnd]
  | some f =>
    refine wp_mono (deliverOrRelease_stays hd f false (h₃.announce hc₃ (ht f rfl))) ?_
    rintro _ w₄ ⟨h₄, k₄⟩
    refine ⟨h₄, k₄.ended (ended_readEnd _), k₄.shut hc₃.shut, k₄.watcher hc₃.shut hc₃.watcher,
      fun he => absurd (k₄.sslRead he) hsub, mt (k₄.start trivial hc₃.shut) hc₃.start, ?_⟩
    have hk := k₄.depth
    rw [offers_readEnd, reads_readEnd] at hk
    omega

/-- What follows a read shutdown leaves it as it is. -/
theorem Closed.stays {w'' : World Stream π} (h : Closed w w') (k : Stays True False w' w'') :
    Closed w w'' := by
  refine ⟨k.ended h.ended, k.shut h.shut, k.watcher h.shut h.watcher, h.sslRead ∘ k.sslRead,
    mt (k.start trivial h.shut) h.start, ?_⟩
  have hd := h.depth
  have hk := k.depth
  omega

/-- An abort may end reading where it is allowed. -/
theorem Closed.toStays (h : Closed w w') (hb : b → w.socket.readShutdown = false)
    (hc : c → Offering w) : Stays b c w w' := by
  have hno : ¬((b ∧ w.socket.readShutdown = true) ∨ (c ∧ ¬Offering w)) := by
    rintro (⟨hp, hs⟩ | ⟨hp, ho⟩)
    · simp [hb hp] at hs
    · exact ho (hc hp)
  exact ⟨fun _ => h.ended, fun _ => h.shut, fun _ _ => h.watcher, h.sslRead, h.depth,
    fun hp hs => absurd (Or.inl ⟨hp, hs⟩) hno, fun _ _ _ => h.start, fun hp => absurd hp hno⟩

theorem cntlAbort_closed (hd : DelegateStays True c d) (h : EndInv w) (hn : ¬Ended w)
    (hr : SSL_READ_WANT_WRITE ∉ w.socket.writeEvents) :
    wp (fun _ => True) (cntlAbort env d) (fun _ w' => EndInv w' ∧ Closed w w') w := by
  have hshut : ∀ now s, Mild s (writeShut now s) := fun _ _ =>
    ⟨⟨le_rfl, id, fun _ => id, id, id⟩, fun _ => id⟩
  have hrest : Staying (π := π) True False (do
      modifySocket (writeUnsetEvent {WRITE_WANT_WRITE})
      let now ← ask env.evNow
      modifySocket (writeShut now)
      FrameTransporter.record (.shutdown .SHUT_WR)
      return true) :=
    (staying_mild (mild_writeUnsetEvent _)).bind fun _ => staying_ask.bind fun now =>
      (staying_mild (hshut now)).bind fun _ =>
      (staying_record (x := .shutdown .SHUT_WR) trivial).bind fun _ => preserves_pure _
  unfold cntlAbort
  rw [wp_bind]
  refine wp_mono (readShutdownNow_closed hd h hn hr) ?_
  rintro _ w₁ ⟨h₁, k₁⟩
  refine wp_mono (hrest w₁ h₁) ?_
  rintro _ w₂ ⟨h₂, k₂⟩
  exact ⟨h₂, k₁.stays k₂⟩

end Closing

section Reading

variable {c : Prop} {env : Env} {d : Delegate π} {w w' : World Stream π} {f : FrameId}

/-- Between callbacks. -/
structure Top (w : World Stream π) : Prop where
  inv : EndInv w
  depth : ¬Offering w

/-- Between callbacks, and reading has not ended. -/
structure Open (w : World Stream π) : Prop extends Top w where
  ended : ¬Ended w

theorem Top.stays {b : Prop} (h : Top w) (h' : EndInv w') (k : Stays b c w w') : Top w' :=
  ⟨h', mt k.offering.mp h.depth⟩

theorem Top.staying {α : Type} {m : StreamM π α} (hm : Staying False False m) (h : Top w) :
    wp (fun _ => True) m (fun _ => Top) w := wp_mono (hm w h.inv) fun _ _ ⟨h', k'⟩ => h.stays h' k'

theorem Top.gentle {s : Stream} (h : Top w) (hs : Gentle w.socket s) : Top (w.setSocket s) := by
  obtain ⟨h', k'⟩ := h.inv.gentle (c := False) hs
  exact h.stays h' k'

/-- A change of the socket does not end reading. -/
theorem Open.gentle {s : Stream} (h : Open w) (hs : Gentle w.socket s) : Open (w.setSocket s) :=
  ⟨h.toTop.gentle hs, h.ended⟩

theorem Open.tick (h : Open w) : Open w.tick := by
  obtain ⟨h', k'⟩ := h.inv.tick (b := False) (c := False)
  exact ⟨h.toTop.stays h' k', h.ended⟩

theorem Open.aside {x : Io} (h : Open w) (hx : Aside x) : Open (w.record x) := by
  obtain ⟨h', k'⟩ := h.inv.aside (b := False) (c := False) hx
  exact ⟨h.toTop.stays h' k', mt (ended_record hx.inner).mp h.ended⟩

/-- Code that stays keeps reading open while it is not called in the delegate. -/
theorem Open.staying {α : Type} {b : Prop} {m : StreamM π α} (hm : Staying b True m) (h : Open w) :
    wp (fun _ => True) m (fun _ => Open) w :=
  wp_mono (hm w h.inv) fun _ _ ⟨h', k'⟩ =>
    ⟨h.toTop.stays h' k', mt (k'.calm (Or.inr ⟨trivial, h.depth⟩)) h.ended⟩

theorem staying_pauseNoframes : Staying (π := π) False True Stream.pauseNoframes := by
  have hnote : ∀ s : Stream, Mild s { s with readPausedNoframes := true } := fun _ =>
    ⟨⟨le_rfl, id, fun _ => id, id, id⟩, fun _ => id⟩
  have hpause : Staying (π := π) False True (cntlReadPause true) := by
    intro w h
    rw [wp_cntlReadPause, if_pos rfl]
    exact h.mild (mild_paused _)
  unfold Stream.pauseNoframes
  exact (staying_mild hnote).bind fun _ => hpause.bind fun _ => preserves_pure _

/-- The environment lets reading of a TLS stream end only while the library does not wait to write
in order to read. -/
def SparesEnd (env : Env) : Prop := ∀ s n x, env.sslRead s n = .failed x →
  x.error ≠ SSL_ERROR_WANT_READ → x.error ≠ SSL_ERROR_WANT_WRITE →
    SSL_READ_WANT_WRITE ∉ s.writeEvents

theorem takeReadFrame_open (hd : DelegateStays True c d) (hg : d.getReadFrame ≠ none → c)
    (h : Open w) : wp (fun _ => True) (takeReadFrame env d) (fun _ => Open) w := by
  have hfetch : wp (fun _ => True) (fetchReadFrame env d) (fun _ => Open) w := by
    unfold fetchReadFrame
    cases hget : d.getReadFrame with
    | some g =>
      have hc : c := hg (by simp [hget])
      have hstay : Staying True True g := fun w h => wp_mono (hd.getReadFrame g hget w h)
        fun _ _ h' => ⟨h'.1, h'.2.weaken id fun _ => hc⟩
      exact h.staying hstay
    | none =>
      refine h.staying (b := False) ((staying_poolBorrow env.toContext .rawData "stream.c" 633).bind
        fun r => ?_)
      cases r with
      | none => exact preserves_pure _
      | some f =>
        exact (staying_getFrame f).bind fun x => (staying_liftM x.formatSimple).bind fun x' =>
          (staying_setFrame f x').bind fun _ => preserves_pure _
  unfold takeReadFrame
  rw [wp_bind, wp_getSocket, wp_ite]
  refine ⟨fun _ => h, fun _ => ?_⟩
  rw [wp_bind]
  refine wp_mono hfetch fun r w₁ h₁ => ?_
  cases r with
  | none =>
    exact h₁.staying (b := False) (staying_pauseNoframes.bind fun _ => preserves_pure none)
  | some f =>
    exact h₁.staying (b := False) ((staying_record (x := .obtained f) trivial).bind fun _ =>
      (staying_setOwner f .reader).bind fun _ =>
        (staying_mild (mild_detach (some f))).bind fun _ => preserves_pure (some f))

/-- Reading goes on, or has ended for good. -/
def Reads (more : Bool) (w : World Stream π) : Prop := Top w ∧ (more = true → ¬Ended w)

theorem Open.reads (h : Open w) (more : Bool) : Reads more w := ⟨h.toTop, fun _ => h.ended⟩

/-- A read shutdown in the handler. -/
theorem readShutdownNow_top (hd : DelegateStays True c d) (h : Open w)
    (hr : SSL_READ_WANT_WRITE ∉ w.socket.writeEvents) :
    wp (fun _ => True) (readShutdownNow env d) (fun _ => Top) w := by
  refine wp_mono (readShutdownNow_closed hd h.inv h.ended hr) ?_
  rintro _ w' ⟨h', k'⟩
  exact h.toTop.stays h' (k'.toStays (b := False) (c := False) False.elim False.elim)

/-- The error callback does not end reading. -/
theorem error_open (hd : DelegateStays True c d) (h : Open w) (e : Option Errno) (l : ℕ) :
    wp (fun _ => True) (Stream.error env d e l) (fun _ w' => Open w' ∧
      (SSL_READ_WANT_WRITE ∈ w'.socket.writeEvents → SSL_READ_WANT_WRITE ∈ w.socket.writeEvents))
      w := by
  have hstay : Staying True c (Stream.error env d e l) := hd.writeSide.fail e l
  have hcalm : wp (fun _ => True) (Stream.error env d e l) (fun _ w' => ¬Ended w') w := by
    unfold Stream.error
    rw [wp_ite]
    refine ⟨fun _ => trivial, fun _ => ?_⟩
    rw [wp_bind, wp_ask, wp_bind, wp_modifySocket, wp_bind, wp_getSocket, wp_bind, wp_record,
      wp_bind]
    have hm : Mild w.socket (failed (env.evNow w.clock) e l w.socket) :=
      ⟨⟨le_rfl, fun _ => rfl, fun _ => id, id, id⟩, fun _ => id⟩
    obtain ⟨h₁, -⟩ := h.inv.tick (b := True) (c := c)
    obtain ⟨h₂, -⟩ := h₁.mild (b := True) (c := c) hm
    obtain ⟨h₃, -⟩ := h₂.aside (b := True) (c := c) (x := .error e w.socket.readFrame) trivial
    have hn : ¬Ended ((w.tick.setSocket (failed (env.evNow w.clock) e l w.socket)).record
        (.error e w.socket.readFrame)) :=
      mt (ended_record (x := .error e w.socket.readFrame) trivial).mp h.ended
    refine wp_mono (hd.error _ h₃) ?_
    rintro _ w₄ ⟨_, k₄⟩
    have hn₄ : ¬Ended w₄ := mt (k₄.calm (Or.inl ⟨trivial, rfl⟩)) hn
    exact mt (ended_record (x := .shutdown .SHUT_RDWR) trivial).mp hn₄
  refine wp_mono (wp_and (hstay w h.inv) hcalm) ?_
  rintro _ w' ⟨⟨h', k'⟩, hn⟩
  exact ⟨⟨h.toTop.stays h' k', hn⟩, k'.sslRead⟩

theorem recvPlain_reads (hd : DelegateStays True c d) (h : Open w) (hs : w.socket.ssl = false)
    (v : Vec) (size : ℕ) :
    wp (fun _ => True) (recvPlain env d v size) (fun r => Reads r.isSome) w := by
  have hr : SSL_READ_WANT_WRITE ∉ w.socket.writeEvents := h.inv.plain hs
  have hrecv : ∀ bytes, Open (w.tick.record (.recv v size bytes)) := fun bytes =>
    h.tick.aside (x := .recv v size bytes) trivial
  unfold recvPlain
  rw [wp_bind, wp_getSocket, wp_bind, wp_ask]
  cases env.recv w.socket w.clock with
  | failed e =>
    have hfail : wp (fun _ => True) (do
        Stream.error env d (some e) 0
        readShutdownNow env d
        return none : StreamM π (Option (List UInt8))) (fun r => Reads r.isSome)
        (w.tick.record (.recv v size [])) := by
      rw [wp_bind]
      refine wp_mono (error_open hd (hrecv []) (some e) 0) ?_
      rintro _ w₁ ⟨h₁, k₁⟩
      rw [wp_bind]
      refine wp_mono (readShutdownNow_top hd h₁ (mt k₁ hr)) fun _ w₂ h₂ => ⟨h₂, by simp⟩
    cases e with
    | EAGAIN => exact ((hrecv []).gentle (gentle_readSetEvent _ _)).reads _
    | _ => exact hfail
  | data bytes =>
    dsimp only
    rw [wp_bind, wp_record, wp_ite]
    refine ⟨fun _ => ?_, fun _ => (hrecv _).reads _⟩
    have hclear : Gentle w.socket { w.socket with sysErrno := none, sslError := 0 } :=
      ⟨le_rfl, id, fun _ => id, id, id⟩
    rw [wp_bind, wp_modifySocket, wp_bind]
    refine wp_mono (readShutdownNow_top hd ((hrecv _).gentle hclear) hr) fun _ w₂ h₂ => ?_
    exact ⟨h₂, by simp⟩

/-- `SSL_read` changes nothing by itself. -/
theorem sslReadAgain_open (henv : SparesEnd env) (h : Open w) (hs : w.socket.ssl = true) :
    wp (fun _ => True) (sslReadAgain env) (fun r w' => Open w' ∧ w'.socket.ssl = true ∧
      ∀ x, r = .failed x → x.error ≠ SSL_ERROR_WANT_READ → x.error ≠ SSL_ERROR_WANT_WRITE →
        SSL_READ_WANT_WRITE ∉ w'.socket.writeEvents) w := by
  unfold sslReadAgain
  rw [wp_bind, wp_getSocket, wp_bind, wp_ask]
  cases hr : env.sslRead w.socket w.clock with
  | data b bs => exact ⟨h.tick, hs, by simp⟩
  | failed x =>
    dsimp only
    rw [wp_ite]
    refine ⟨fun _ => ?_, fun _ => ⟨h.tick, hs, fun y hy => ?_⟩⟩
    · have h₁ := h.tick.gentle (mild_awaitWrite w.socket).toGentle
      have hs₁ : (awaitWrite w.socket).ssl = true := by
        rw [awaitWrite, writeSetEvent_eq]
        exact hs
      rw [wp_bind, wp_modifySocket, wp_bind, wp_getSocket, wp_ask]
      exact ⟨h₁.tick, hs₁, fun y hy => henv _ _ _ hy⟩
    · obtain rfl := SslReadResult.failed.inj hy
      exact henv _ _ _ hr

theorem sslReadFailed_top (hd : DelegateStays True c d) (h : Open w) (hs : w.socket.ssl = true)
    (x : SslFailure) (hx : x.error ≠ SSL_ERROR_WANT_READ → x.error ≠ SSL_ERROR_WANT_WRITE →
      SSL_READ_WANT_WRITE ∉ w.socket.writeEvents) :
    wp (fun _ => True) (sslReadFailed env d x) (fun _ => Top) w := by
  unfold sslReadFailed
  cases he : x.error with
  | SSL_ERROR_WANT_READ =>
    have h₁ := h.toTop.gentle (gentle_readSetEvent {READ_WANT_READ} _)
    exact h₁.gentle (mild_writeUnsetEvent {SSL_READ_WANT_WRITE} _).toGentle
  | SSL_ERROR_WANT_WRITE =>
    have h₁ := h.gentle (mild_readUnsetEvent {READ_WANT_READ} _).toGentle
    have hs₁ : (readUnsetEvent {READ_WANT_READ} w.socket).ssl = true := by
      rw [readUnsetEvent_eq]
      exact hs
    dsimp only
    rw [wp_bind, wp_modifySocket, wp_modifySocket]
    generalize readUnsetEvent {READ_WANT_READ} w.socket = s at h₁ hs₁ ⊢
    obtain ⟨hl, ho, hf, hp, hsh, hex, hq⟩ := h₁.inv
    simp only [World.setSocket_setSocket, World.setSocket_socket] at *
    refine ⟨⟨?_, ho, hf, fun hp => ?_, fun he => absurd he h₁.ended, fun hm => ?_, hq⟩, h₁.depth⟩
    · rw [writeSetEvent_eq]
      exact hl
    · rw [writeSetEvent_eq] at hp
      exact absurd hp (by simp [hs₁])
    · rw [writeSetEvent_eq]
      exact hex hm
  | SSL_ERROR_ZERO_RETURN =>
    have hr := hx (by simp [he]) (by simp [he])
    have hclear : Gentle w.socket { w.socket with sysErrno := none, sslError := 0 } :=
      ⟨le_rfl, id, fun _ => id, id, id⟩
    have h₁ := h.gentle hclear
    dsimp only
    rw [wp_ite, wp_ite]
    refine ⟨fun _ => trivial, fun _ => ⟨fun _ => trivial, fun _ => ?_⟩⟩
    rw [wp_bind, wp_modifySocket, wp_bind, wp_record]
    exact readShutdownNow_top hd (h₁.aside (x := .shutdown .SHUT_RD) trivial) hr
  | SSL_ERROR_SYSCALL =>
    have hr := hx (by simp [he]) (by simp [he])
    have hclear : Gentle w.socket { w.socket with sysErrno := x.errno, sslError := 0 } :=
      ⟨le_rfl, id, fun _ => id, id, id⟩
    dsimp only
    rw [wp_ite, wp_ite]
    refine ⟨fun _ => ⟨fun _ => trivial, fun _ => ?_⟩, fun _ => ?_⟩
    · rw [wp_bind, wp_modifySocket]
      exact readShutdownNow_top hd (h.gentle hclear) hr
    · rw [wp_bind, wp_when]
      refine ⟨fun _ => ?_, fun _ => readShutdownNow_top hd h hr⟩
      refine wp_mono (error_open hd h x.errno 0) ?_
      rintro _ _ ⟨h', k'⟩
      exact readShutdownNow_top hd h' (mt k' hr)
  | SSL_ERROR_SSL =>
    have hr := hx (by simp [he]) (by simp [he])
    dsimp only
    unfold sslProtocolError
    rw [wp_bind, wp_ite]
    refine ⟨fun _ => trivial, fun _ => ?_⟩
    refine wp_mono (error_open hd h none x.peek) ?_
    rintro _ _ ⟨h', k'⟩
    exact readShutdownNow_top hd h' (mt k' hr)
  | unexpected =>
    have hr := hx (by simp [he]) (by simp [he])
    dsimp only
    rw [wp_bind]
    refine wp_mono (error_open hd h (errnoOrReset x) 0) ?_
    rintro _ _ ⟨h', k'⟩
    exact readShutdownNow_top hd h' (mt k' hr)

theorem receive_reads (hd : DelegateStays True c d) (henv : SparesEnd env) (h : Open w) (v : Vec)
    (size : ℕ) : wp (fun _ => True) (receive env d v size) (fun r => Reads r.isSome) w := by
  unfold receive
  rw [wp_bind, wp_getSocket, wp_ite]
  refine ⟨fun hs => recvPlain_reads hd h hs v size, fun hs => ?_⟩
  rw [wp_bind]
  refine wp_mono (sslReadAgain_open henv h (by simpa using hs)) ?_
  rintro r w₁ ⟨h₁, hs₁, hr⟩
  cases r with
  | data b bs => exact (h₁.aside (x := .recv v size _) trivial).reads _
  | failed x =>
    have h₂ := h₁.aside (x := .recv v size []) trivial
    dsimp only
    rw [wp_bind, wp_record, wp_bind]
    exact wp_mono (sslReadFailed_top hd h₂ hs₁ x (hr x rfl)) fun _ w₃ h₃ => ⟨h₃, by simp⟩

/-- A frame is handed over. The loop goes on only if the delegate has not ended reading. -/
theorem uplink_top (hd : DelegateStays True c d) (h : Open w) (f : FrameId) :
    wp (fun _ => True) (uplink d f) (fun _ w' => Top w' ∧
      (READ_WANT_READ ∈ w'.socket.readEvents → ¬Ended w')) w := by
  have h₁ := h.gentle (mild_detach none _).toGentle
  unfold uplink
  rw [wp_bind, wp_modifySocket, wp_bind]
  refine wp_mono (deliver_stays hd f false (h₁.inv.offer h₁.ended f _)) ?_
  rintro taken w₂ ⟨h₂, k₂⟩
  have ht : Top w₂ := h₁.toTop.stays h₂ k₂
  have hn : READ_WANT_READ ∈ w₂.socket.readEvents → ¬Ended w₂ := fun hw he =>
    k₂.want trivial (fun he => absurd he h₁.ended) he hw
  cases taken with
  | true => exact ⟨ht, hn⟩
  | false =>
    obtain ⟨h₃, k₃⟩ := h₂.setOwner (b := False) (c := False) f .reader
    exact ⟨(ht.stays h₃ k₃).gentle (mild_detach (some f) _).toGentle, hn⟩

theorem uplinkAlone_top (hd : DelegateStays True c d) (h : Open w) (f : FrameId) :
    wp (fun _ => True) (uplinkAlone d f) (fun _ => Top) w := by
  have h₁ := h.gentle (mild_detach none _).toGentle
  unfold uplinkAlone
  rw [wp_bind, wp_modifySocket, wp_bind]
  refine wp_mono (deliver_stays hd f false (h₁.inv.offer h₁.ended f _)) ?_
  rintro taken w₂ ⟨h₂, k₂⟩
  have ht : Top w₂ := h₁.toTop.stays h₂ k₂
  cases taken with
  | true => exact ht
  | false =>
    rw [if_neg (by simp), wp_bind, wp_getSocket, wp_ite]
    refine ⟨fun _ => trivial, fun _ => ?_⟩
    obtain ⟨h₃, k₃⟩ := h₂.setOwner (b := False) (c := False) f .reader
    exact (ht.stays h₃ k₃).gentle (mild_detach (some f) _).toGentle

theorem vecAdvanced_reads (hd : DelegateStays True c d) (h : Open w) (f : FrameId)
    (filled : Bool) : wp (fun _ => True) (vecAdvanced d f filled) Reads w := by
  have hup : ∀ w : World Stream π, Open w → wp (fun _ => True) (do
      uplink d f
      let s ← getSocket
      return decide (READ_WANT_READ ∈ s.readEvents)) Reads w := by
    intro w h
    rw [wp_bind]
    refine wp_mono (uplink_top hd h f) ?_
    rintro _ w' ⟨h', hn⟩
    exact ⟨h', fun hr => hn (of_decide_eq_true hr)⟩
  have hwant : ∀ w : World Stream π, Top w → wp (fun _ => True) (do
      modifySocket (readSetEvent {READ_WANT_READ})
      return false) Reads w := fun w h => ⟨h.gentle (gentle_readSetEvent _ _), by simp⟩
  unfold vecAdvanced
  rw [wp_bind, wp_getSocket, wp_ite]
  refine ⟨fun _ => ?_, fun _ => ?_⟩
  · rw [wp_bind, wp_when]
    exact ⟨fun _ => wp_mono (uplinkAlone_top hd h f) fun _ w' h' => hwant w' h',
      fun _ => hwant w h.toTop⟩
  · rw [wp_bind, wp_getFrame, wp_bind]
    refine wp_mono (h.staying (b := False) (staying_liftM (w.heap f).nextVec)) fun r w₁ h₁ => ?_
    obtain ⟨more, x⟩ := r
    dsimp only
    rw [wp_bind]
    refine wp_mono (h₁.staying (b := False) (staying_setFrame f x)) fun _ w₂ h₂ => ?_
    rw [wp_ite, wp_ite]
    exact ⟨fun _ => hup w₂ h₂, fun _ => ⟨fun _ => hup w₂ h₂, fun _ => h₂.reads true⟩⟩

theorem readVec_reads (hd : DelegateStays True c d) (henv : SparesEnd env) (h : Open w)
    (f : FrameId) : wp (fun _ => True) (readVec env d f) Reads w := by
  unfold readVec
  rw [wp_bind, wp_getFrame, wp_bind]
  refine wp_mono (h.staying (b := False) (staying_liftM (w.heap f).getVec)) fun v w₁ h₁ => ?_
  cases v with
  | none => trivial
  | some v =>
    dsimp only
    rw [wp_ite]
    refine ⟨fun _ => trivial, fun _ => ?_⟩
    rw [wp_bind]
    refine wp_mono (receive_reads hd henv h₁ v _) ?_
    rintro r w₂ ⟨h₂, hn⟩
    cases r with
    | none => exact ⟨h₂, by simp⟩
    | some bytes =>
      have h₂ : Open w₂ := ⟨h₂, hn rfl⟩
      dsimp only
      rw [wp_bind]
      refine wp_mono (h₂.staying (b := False) (staying_liftM _)) fun x w₃ h₃ => ?_
      rw [wp_bind]
      exact wp_mono (h₃.staying (b := False) (staying_setFrame f x)) fun _ w₄ h₄ =>
        vecAdvanced_reads hd h₄ f _

/-- The read loop ends reading once at most. -/
theorem readLoop_top (hd : DelegateStays True c d) (hg : d.getReadFrame ≠ none → c)
    (henv : SparesEnd env) (n : ℕ) (h : Open w) :
    wp (fun _ => True) (readLoop env d n) (fun _ => Top) w := by
  induction n generalizing w with
  | zero => exact h.toTop.gentle (gentle_readSetEvent _ _)
  | succ n ih =>
    unfold readLoop
    rw [wp_bind]
    refine wp_mono (takeReadFrame_open hd hg h) fun r w₁ h₁ => ?_
    cases r with
    | none => exact h₁.toTop
    | some f =>
      dsimp only
      rw [wp_bind]
      refine wp_mono (readVec_reads hd henv h₁ f) ?_
      rintro more w₂ ⟨h₂, hn⟩
      cases more with
      | false => exact h₂
      | true => exact ih ⟨h₂, hn rfl⟩

theorem onReadEvent_top (hd : DelegateStays True c d) (hg : d.getReadFrame ≠ none → c)
    (henv : SparesEnd env) (h : Open w) :
    wp (fun _ => True) (onReadEvent env d) (fun _ => Top) w := by
  unfold onReadEvent
  rw [wp_bind, wp_getSocket, wp_ite]
  exact ⟨fun _ => trivial, fun _ => readLoop_top hd hg henv _ h⟩

end Reading

section Handlers

variable {c : Prop} {env : Env} {d : Delegate π} {w : World Stream π}

theorem DelegateStays.mono {b c b' c' : Prop} (hd : DelegateStays b c d) (hb : b' → b)
    (hc : c' → c) : DelegateStays b' c' d := by
  have hweak {α : Type} {m : StreamM π α} (hm : Staying b c m) : Staying b' c' m :=
    fun w h => wp_mono (hm w h) fun _ _ h' => ⟨h'.1, h'.2.weaken hb hc⟩
  exact ⟨fun g hg => hweak (hd.getReadFrame g hg), fun f => hweak (hd.read f), hweak hd.connected,
    hweak hd.error, fun g hg f side => hweak (hd.frameReturn g hg f side)⟩

/-- Between callbacks less is asked of what the delegate does. -/
theorem DelegateStays.weaken (hd : DelegateStays True c d) : DelegateStays False False d :=
  hd.mono False.elim False.elim

/-- The connection is established: reading starts unless it is shut. -/
theorem gentle_started (s : Stream) : Gentle s (started s) :=
  (gentle_readSetEvent _ _).trans (mild_writeSetEvent _ (by simp)).toGentle

theorem connected_top (hd : DelegateStays True c d) (h : Top w) :
    wp (fun _ => True) (do
      FrameTransporter.record .connected
      d.connected
      onWriteEvent env d) (fun _ => Top) w :=
  h.staying ((staying_record (x := .connected) trivial).bind fun _ =>
    hd.weaken.connected.bind fun _ => hd.weaken.writeSide.onWriteEvent)

theorem doHandshake_top (hd : DelegateStays True c d) (h : Top w) :
    wp (fun _ => True) (doHandshake env d) (fun _ => Top) w := by
  have herr : ∀ e l, Staying False False (Stream.error env d e l) := hd.weaken.writeSide.fail
  unfold doHandshake
  rw [wp_bind, wp_getSocket, wp_bind]
  refine wp_mono (h.staying staying_ask) fun r w₁ h₁ => ?_
  cases r with
  | completed verified =>
    dsimp only
    rw [wp_ite]
    refine ⟨fun _ => h₁.staying (herr _ _), fun _ => ?_⟩
    rw [wp_bind, wp_modifySocket, wp_bind, wp_modifySocket, wp_bind, wp_cntlStart, wp_bind,
      wp_modifySocket]
    simp only [World.setSocket_setSocket, World.setSocket_socket]
    have hs : Gentle w₁.socket (started (readUnsetEvent {SSL_HANDSHAKE_WANT_READ}
        (writeUnsetEvent {SSL_HANDSHAKE_WANT_WRITE} w₁.socket))) :=
      (mild_writeUnsetEvent _ _).toGentle.trans <|
        (mild_readUnsetEvent _ _).toGentle.trans (gentle_started _)
    generalize started (readUnsetEvent {SSL_HANDSHAKE_WANT_READ}
      (writeUnsetEvent {SSL_HANDSHAKE_WANT_WRITE} w₁.socket)) = s at hs
    have hend : Gentle s { s with connecting := false, sslStatus := 2 } :=
      ⟨le_rfl, id, fun _ => id, id, id⟩
    exact connected_top hd (h₁.gentle (hs.trans hend))
  | failed x =>
    cases hx : x.error with
    | SSL_ERROR_WANT_READ =>
      simpa only [hx] using h₁.staying ((staying_mild fun s => mild_readSetEvent s (by simp)).bind
        fun _ => staying_mild (mild_writeUnsetEvent _))
    | SSL_ERROR_WANT_WRITE =>
      simpa only [hx] using h₁.staying ((staying_mild (mild_readUnsetEvent _)).bind fun _ =>
        staying_mild fun s => mild_writeSetEvent s (by simp))
    | SSL_ERROR_SSL =>
      simpa only [hx] using h₁.staying (hd.weaken.writeSide.protocolError x)
    | _ => simpa only [hx] using h₁.staying (herr _ _)

theorem onSslHandshakeEvent_top (hd : DelegateStays True c d) (h : Top w) :
    wp (fun _ => True) (onSslHandshakeEvent env d) (fun _ => Top) w := by
  have hconf : Staying (π := π) False False (modifySocket fun s => { s with sslHsconf := true }) :=
    staying_mild fun _ => ⟨⟨le_rfl, id, fun _ => id, id, id⟩, fun _ => id⟩
  unfold onSslHandshakeEvent
  rw [wp_bind, wp_getSocket, wp_ite, wp_ite]
  refine ⟨fun _ => trivial, fun _ => ⟨fun _ => trivial, fun _ => ?_⟩⟩
  rw [wp_bind]
  refine wp_mono (h.staying (.when _ fun _ => ?_)) fun _ w₁ h₁ => doHandshake_top hd h₁
  exact (staying_record (x := .setSslState w.socket.sslServer) trivial).bind fun _ => hconf

theorem onWriteReady_top (hd : DelegateStays True c d) (hg : d.getReadFrame ≠ none → c)
    (henv : SparesEnd env) (h : Top w) :
    wp (fun _ => True) (onWriteReady env d) (fun _ => Top) w := by
  unfold onWriteReady
  rw [wp_bind, wp_getSocket, wp_bind]
  refine wp_mono (h.staying (.when _ fun _ => hd.weaken.writeSide.onWriteEvent)) fun _ w₁ h₁ => ?_
  rw [wp_bind, wp_getSocket, wp_when]
  refine ⟨fun _ => ?_, fun _ => h₁⟩
  rw [wp_bind]
  refine wp_mono (Q := fun _ => Top) ?_ fun _ w₂ h₂ => ?_
  · rw [wp_when]
    exact ⟨fun _ => onSslHandshakeEvent_top hd h₁, fun _ => h₁⟩
  rw [wp_bind, wp_getSocket, wp_bind]
  refine wp_mono (h₂.staying (.when _ fun _ => hd.weaken.writeSide.onSslSentShutdownEvent))
    fun _ w₃ h₃ => ?_
  rw [wp_bind, wp_getSocket, wp_when]
  refine ⟨fun hw => onReadEvent_top hd hg henv ⟨h₃, fun he => ?_⟩, fun _ => h₃⟩
  exact (h₃.inv.shut he).2.2 hw

theorem onConnectEvent_top (hd : DelegateStays True c d) (hg : d.getReadFrame ≠ none → c)
    (henv : SparesEnd env) (h : Top w) :
    wp (fun _ => True) (onConnectEvent env d) (fun _ => Top) w := by
  unfold onConnectEvent
  rw [wp_bind, wp_getSocket, wp_ite]
  refine ⟨fun _ => trivial, fun _ => ?_⟩
  rw [wp_bind]
  refine wp_mono (h.staying staying_ask) fun r w₁ h₁ => ?_
  cases r with
  | unknown => exact h₁
  | error e => exact h₁.staying (hd.weaken.writeSide.fail _ _)
  | none =>
    have hs := (mild_writeUnsetEvent {CONNECT_WANT_WRITE} w₁.socket).toGentle
    dsimp only
    rw [wp_bind, wp_modifySocket, wp_ite, wp_ite]
    generalize writeUnsetEvent {CONNECT_WANT_WRITE} w₁.socket = s at hs
    refine ⟨fun _ => ⟨fun _ => trivial, fun _ => ?_⟩, fun _ => ?_⟩
    · have hw : Gentle s (writeSetEvent {SSL_HANDSHAKE_WANT_WRITE} s) :=
        (mild_writeSetEvent s (by simp)).toGentle
      rw [wp_bind, wp_modifySocket, wp_bind, wp_modifySocket]
      simp only [World.setSocket_setSocket, World.setSocket_socket]
      exact onWriteReady_top hd hg henv (h₁.gentle (hs.trans (hw.trans (gentle_readSetEvent _ _))))
    · have hend : Gentle (started s) { started s with connecting := false } :=
        ⟨le_rfl, id, fun _ => id, id, id⟩
      rw [wp_bind, wp_cntlStart, wp_bind, wp_modifySocket]
      simp only [World.setSocket_setSocket, World.setSocket_socket]
      exact connected_top hd (h₁.gentle (hs.trans ((gentle_started s).trans hend)))

theorem onWrite_top (hd : DelegateStays True c d) (hg : d.getReadFrame ≠ none → c)
    (henv : SparesEnd env) (h : Top w) :
    wp (fun _ => True) (onWrite env d) (fun _ => Top) w := by
  unfold onWrite
  rw [wp_bind, wp_getSocket, wp_bind]
  refine wp_mono (Q := fun _ => Top) ?_ fun _ w₁ h₁ => onWriteReady_top hd hg henv h₁
  rw [wp_when]
  exact ⟨fun _ => onConnectEvent_top hd hg henv h, fun _ => h⟩

/-- The read watcher is active only before reading has ended. -/
theorem onRead_top (hd : DelegateStays True c d) (hg : d.getReadFrame ≠ none → c)
    (henv : SparesEnd env) (h : Open w) :
    wp (fun _ => True) (onRead env d) (fun _ => Top) w := by
  unfold onRead
  rw [wp_bind, wp_getSocket, wp_ite]
  refine ⟨fun _ => h.toTop.gentle ⟨le_rfl, id, fun _ _ => rfl, id, id⟩, fun _ => ?_⟩
  rw [wp_bind]
  refine wp_mono (Q := fun _ => Top) ?_ fun _ w₁ h₁ => ?_
  · rw [wp_when]
    exact ⟨fun _ => onReadEvent_top hd hg henv h, fun _ => h.toTop⟩
  rw [wp_bind, wp_getSocket, wp_when]
  refine ⟨fun _ => ?_, fun _ => h₁⟩
  rw [wp_bind]
  refine wp_mono (Q := fun _ => Top) ?_ fun _ w₂ h₂ => ?_
  · rw [wp_when]
    exact ⟨fun _ => onSslHandshakeEvent_top hd h₁, fun _ => h₁⟩
  rw [wp_bind, wp_getSocket, wp_bind]
  refine wp_mono (h₂.staying (.when _ fun _ => hd.weaken.writeSide.onSslSentShutdownEvent))
    fun _ w₃ h₃ => ?_
  rw [wp_bind, wp_getSocket]
  exact h₃.staying (.when _ fun _ => hd.weaken.writeSide.onWriteEvent)

end Handlers

section Calls

variable {b c c' : Prop} {env : Env} {d : Delegate π} {w w' : World Stream π}

/-- An abort ends reading for the first time, and in a callback only while the delegate is given a
frame. -/
structure Endable (b c : Prop) (w : World Stream π) : Prop where
  ended : ¬Ended w
  sslRead : SSL_READ_WANT_WRITE ∉ w.socket.writeEvents
  shut : b → w.socket.readShutdown = false
  offering : c → Offering w

instance [Decidable b] [Decidable c] : Decidable (Endable b c w) :=
  decidable_of_iff (¬Ended w ∧ SSL_READ_WANT_WRITE ∉ w.socket.writeEvents ∧
      (b → w.socket.readShutdown = false) ∧ (c → Offering w))
    ⟨fun ⟨he, hr, hs, ho⟩ => ⟨he, hr, hs, ho⟩, fun h => ⟨h.ended, h.sslRead, h.shut, h.offering⟩⟩

/-- Reading is aborted at most once, not started again in a callback once it is shut, and not
resumed after it ended without a frame. -/
def EndsOnly (b c : Prop) (w : World Stream π) : Event → Prop
  | .call (.cntl codes) =>
    (b → .READ_START ∈ codes → w.socket.readShutdown = false) ∧
    (.READ_RESUME ∈ codes → none ∈ ends w.trace →
      .READ_PAUSE ∈ codes ∨ 1 < w.socket.readPauseLevel) ∧
    (.ABORT ∈ codes → .WRITE_SHUTDOWN ∉ codes ∧ Endable b c w)
  | _ => True

instance [Decidable b] [Decidable c] (w : World Stream π) :
    (e : Event) → Decidable (EndsOnly b c w e)
  | .call (.cntl _) => inferInstanceAs (Decidable (_ ∧ _ ∧ _))
  | .call (.enableSsl _) | .call (.write _) | .call (.setPartial _) | .call (.borrow _)
  | .call (.frameReturn _) | .call (.fill ..) | .read | .write | .error =>
    inferInstanceAs (Decidable True)

/-- What the control codes do that only start, stop or pause. -/
structure Brief (b c : Prop) (w w' : World Stream π) : Prop extends Stays b c w w' where
  trace : w'.trace = w.trace
  same : w'.socket.readShutdown = w.socket.readShutdown

instance : IsPreorder (World Stream π) (Brief b c) where
  refl w := ⟨refl_of (Stays b c) w, rfl, rfl⟩
  trans _ _ _ h h' :=
    ⟨trans_of (Stays b c) h.toStays h'.toStays, h'.trace.trans h.trace, h'.same.trans h.same⟩

theorem Brief.endable (k : Brief b c w w') (h : Endable b c w) : Endable b c w' where
  ended := by
    have he := h.ended
    rwa [Ended, ← k.trace] at he
  sslRead := mt k.sslRead h.sslRead
  shut hb := k.same.trans (h.shut hb)
  offering hc := k.offering.mpr (h.offering hc)

theorem EndInv.brief {s : Stream} (h : EndInv w) (hs : Mild w.socket s)
    (hr : s.readShutdown = w.socket.readShutdown) :
    EndInv (w.setSocket s) ∧ Brief b c w (w.setSocket s) := by
  obtain ⟨h', k'⟩ := h.mild (b := b) (c := c) hs
  exact ⟨h', k', rfl, hr⟩

theorem resumed_eq (s : Stream) : resumed s = { s with
    readPauseLevel := s.readPauseLevel - 1
    readWatcher := if s.readPauseLevel - 1 = 0 ∧ s.readEvents ≠ ∅ ∧ s.readShutdown = false then true
      else s.readWatcher } := by
  unfold resumed
  split
  · next hl =>
    rw [readSetEvent_eq]
    simp [hl]
  · next hl => simp [hl]

/-- Reading is started, in a callback only while it is not shut. -/
theorem readStart_brief (h : EndInv w) (hb : b → w.socket.readShutdown = false) :
    EndInv (w.setSocket (readSetEvent {READ_WANT_READ} w.socket)) ∧
      Brief b c w (w.setSocket (readSetEvent {READ_WANT_READ} w.socket)) := by
  have hsame : (readSetEvent {READ_WANT_READ} w.socket).readShutdown = w.socket.readShutdown := by
    rw [readSetEvent_eq]
  by_cases hp : b
  · refine h.brief (mild_readSetEvent _ fun hs => ?_) hsame
    simp [hb hp] at hs
  · obtain ⟨h', k'⟩ := h.gentle (c := c) (gentle_readSetEvent {READ_WANT_READ} w.socket)
    exact ⟨h', k'.weaken hp id, rfl, hsame⟩

/-- Reading is resumed, but not after it ended without a frame. -/
theorem readResume_brief (h : EndInv w) (hl : 0 < w.socket.readPauseLevel)
    (hn : none ∈ ends w.trace → 1 < w.socket.readPauseLevel) :
    EndInv (w.setSocket (resumed w.socket)) ∧ Brief b c w (w.setSocket (resumed w.socket)) := by
  have hw : w.socket.readShutdown = true → w.socket.readWatcher = false →
      (resumed w.socket).readWatcher = false := by
    intro hs hw
    rw [resumed_eq]
    exact (if_neg fun hc => by simp [hs] at hc).trans hw
  have hlevel : (resumed w.socket).readPauseLevel = w.socket.readPauseLevel - 1 := by
    rw [resumed_eq]
  have hevents : (resumed w.socket).readEvents = w.socket.readEvents := by rw [resumed_eq]
  have hwrites : (resumed w.socket).writeEvents = w.socket.writeEvents := by rw [resumed_eq]
  have hshut : (resumed w.socket).readShutdown = w.socket.readShutdown := by rw [resumed_eq]
  have hssl : (resumed w.socket).ssl = w.socket.ssl := by rw [resumed_eq]
  generalize resumed w.socket = s at *
  refine ⟨⟨?_, h.once, h.offered, fun hp => ?_, fun he => ?_, fun hm => ?_, h.quiet⟩,
    ⟨id, hshut.trans, hw, fun he => hwrites ▸ he, rfl, fun _ _ he => hevents ▸ he,
      fun _ hw he => ?_, fun _ => id⟩, rfl, hshut⟩
  · rw [World.setSocket_socket, hlevel]
    omega
  · rw [World.setSocket_socket, hwrites]
    exact h.plain (hssl.symm.trans hp)
  · obtain ⟨hs, hoff, hr⟩ := h.shut he
    exact ⟨hshut.trans hs, hw hs hoff, by rwa [World.setSocket_socket, hwrites]⟩
  · have hn := hn hm
    rw [World.setSocket_socket, hlevel]
    omega
  · rw [World.setSocket_socket, hevents]
    exact hw he

theorem readShutdown_paused (s : Stream) : (paused s).readShutdown = s.readShutdown := by
  unfold paused
  split
  · rw [readUnsetEvent_eq]
  · rfl

theorem readPauseLevel_paused (s : Stream) : (paused s).readPauseLevel = s.readPauseLevel + 1 := by
  unfold paused
  split
  · rw [readUnsetEvent_eq]
  · rfl

theorem wp_cntlCodes_keep {E : Fault → Prop} {I : World Stream π → Prop} :
    ∀ {cs : List Cntl} {w : World Stream π},
      (∀ c ∈ cs, ∀ w, I w → wp E (cntlCode env d c) (fun _ => I) w) → I w →
        wp E (cntlCodes env d cs) (fun _ => I) w
  | [], _, _, hw => hw
  | c :: cs, w, h, hw => by
    rw [cntlCodes, wp_bind]
    refine wp_mono (h c (by simp) w hw) fun _ w₁ h₁ => ?_
    rw [wp_bind]
    exact wp_cntlCodes_keep (fun c hc => h c (List.mem_cons_of_mem _ hc)) h₁

theorem wp_cntlCodes_single {E : Fault → Prop} {Q : World Stream π → Prop} (c : Cntl)
    (codes : Finset Cntl) : wp E (cntlCodes env d ([c].filter (· ∈ codes))) (fun _ => Q) w ↔
      (c ∈ codes → wp E (cntlCode env d c) (fun _ => Q) w) ∧ (c ∉ codes → Q w) := by
  by_cases hc : c ∈ codes
  · have hone : [c].filter (· ∈ codes) = [c] := by simp [hc]
    rw [hone, cntlCodes, wp_bind]
    exact ⟨fun h => ⟨fun _ => h, fun hn => absurd hc hn⟩, fun h => h.1 hc⟩
  · have hnone : [c].filter (· ∈ codes) = [] := by simp [hc]
    rw [hnone]
    exact ⟨fun h => ⟨fun hn => absurd hn hc, fun _ => h⟩, fun h => h.2 hc⟩

/-- The codes before `FT_STREAM_WRITE_SHUTDOWN`. A pause comes before a resume. -/
theorem cntl_brief (h : EndInv w) {codes : Finset Cntl}
    (hg : EndsOnly b c w (.call (.cntl codes))) :
    wp (fun _ => True) (cntlCodes env d ([Cntl.READ_START, .READ_STOP, .READ_PAUSE, .READ_RESUME,
      .WRITE_START, .WRITE_STOP].filter (· ∈ codes))) (fun _ w' => EndInv w' ∧ Brief b c w w')
      w := by
  obtain ⟨hstart, hresume, -⟩ := hg
  have hread : wp (fun _ => True) (cntlCodes env d ([Cntl.READ_START, .READ_STOP].filter
      (· ∈ codes))) (fun _ w' => EndInv w' ∧ Brief b c w w' ∧
        w'.socket.readPauseLevel = w.socket.readPauseLevel) w := by
    refine wp_cntlCodes_keep ?_ ⟨h, refl_of (Brief b c) w, rfl⟩
    rintro x hx w₁ ⟨h₁, k₁, hl⟩
    obtain ⟨hx, hmem⟩ := List.mem_filter.mp hx
    have hmem : x ∈ codes := by simpa using hmem
    obtain rfl | rfl : x = .READ_START ∨ x = .READ_STOP := by simpa using hx
    · have hb : b → w₁.socket.readShutdown = false := fun hb => k₁.same.trans (hstart hb hmem)
      obtain ⟨h₂, k₂⟩ := readStart_brief (c := c) h₁ hb
      refine ⟨h₂, trans_of (Brief b c) k₁ k₂, ?_⟩
      rw [World.setSocket_socket, readSetEvent_eq]
      exact hl
    · obtain ⟨h₂, k₂⟩ := h₁.brief (b := b) (c := c) (mild_readUnsetEvent {READ_WANT_READ} _)
        (by rw [readUnsetEvent_eq])
      refine ⟨h₂, trans_of (Brief b c) k₁ k₂, ?_⟩
      rw [World.setSocket_socket, readUnsetEvent_eq]
      exact hl
  have hall : [Cntl.READ_START, .READ_STOP, .READ_PAUSE, .READ_RESUME, .WRITE_START, .WRITE_STOP] =
      [.READ_START, .READ_STOP] ++
        ([.READ_PAUSE] ++ ([.READ_RESUME] ++ [.WRITE_START, .WRITE_STOP]))
    := rfl
  rw [hall]
  simp only [List.filter_append]
  rw [wp_cntlCodes_append]
  refine wp_mono hread ?_
  rintro _ w₁ ⟨h₁, k₁, hl₁⟩
  have hpause : wp (fun _ => True) (cntlCodes env d ([Cntl.READ_PAUSE].filter (· ∈ codes)))
      (fun _ w' => EndInv w' ∧ Brief b c w w' ∧
        (.READ_RESUME ∈ codes → none ∈ ends w'.trace → 1 < w'.socket.readPauseLevel)) w₁ := by
    rw [wp_cntlCodes_single]
    refine ⟨fun _ => ?_, fun hp => ⟨h₁, k₁, fun hr hn => ?_⟩⟩
    · obtain ⟨h₂, k₂⟩ := h₁.brief (b := b) (c := c) (mild_paused _) (readShutdown_paused _)
      refine wp_cntlReadPause true |>.mpr ⟨h₂, trans_of (Brief b c) k₁ k₂, fun _ hn => ?_⟩
      have hl := h₁.exhausted hn
      rw [World.setSocket_socket, readPauseLevel_paused]
      omega
    · rw [hl₁]
      exact (hresume hr (k₁.trace ▸ hn)).resolve_left hp
  rw [wp_cntlCodes_append]
  refine wp_mono hpause ?_
  rintro _ w₂ ⟨h₂, k₂, hn₂⟩
  have hres : wp (fun _ => True) (cntlCodes env d ([Cntl.READ_RESUME].filter (· ∈ codes)))
      (fun _ w' => EndInv w' ∧ Brief b c w w') w₂ := by
    rw [wp_cntlCodes_single]
    refine ⟨fun hr => (wp_cntlReadPause false).mpr ?_, fun _ => ⟨h₂, k₂⟩⟩
    rw [if_neg (by simp)]
    split
    · trivial
    · next hl =>
      obtain ⟨h₃, k₃⟩ := readResume_brief (b := b) (c := c) h₂ (not_le.mp hl) (hn₂ hr)
      exact ⟨h₃, trans_of (Brief b c) k₂ k₃⟩
  rw [wp_cntlCodes_append]
  refine wp_mono hres fun _ w₃ h₃ => wp_cntlCodes_keep ?_ h₃
  rintro x hx w₄ ⟨h₄, k₄⟩
  obtain rfl | rfl : x = .WRITE_START ∨ x = .WRITE_STOP := by
    simpa using (List.mem_filter.mp hx).1
  · obtain ⟨h₅, k₅⟩ := h₄.brief (b := b) (c := c) (mild_writeSetEvent (a := {WRITE_WANT_WRITE}) _
      (by simp)) (by rw [writeSetEvent_eq])
    exact ⟨h₅, trans_of (Brief b c) k₄ k₅⟩
  · obtain ⟨h₅, k₅⟩ := h₄.brief (b := b) (c := c) (mild_writeUnsetEvent {WRITE_WANT_WRITE} _)
      (by rw [writeUnsetEvent_eq])
    exact ⟨h₅, trans_of (Brief b c) k₄ k₅⟩

theorem cntl_stays (hd : DelegateStays True c' d) (hc : c → c') (h : EndInv w)
    {codes : Finset Cntl} (hg : EndsOnly b c w (.call (.cntl codes))) :
    wp (fun _ => True) (cntl env d codes) (fun _ w' => EndInv w' ∧ Stays b c w w') w := by
  have hall : Cntl.all = [Cntl.READ_START, .READ_STOP, .READ_PAUSE, .READ_RESUME, .WRITE_START,
      .WRITE_STOP] ++ ([.WRITE_SHUTDOWN] ++ [.ABORT]) := rfl
  unfold cntl
  rw [hall]
  simp only [List.filter_append]
  rw [wp_cntlCodes_append]
  refine wp_mono (cntl_brief h hg) ?_
  rintro _ w₁ ⟨h₁, k₁⟩
  rw [wp_cntlCodes_append, wp_cntlCodes_single, wp_cntlCodes_single]
  refine ⟨fun hs => ?_, fun _ => ⟨fun ha => ?_, fun _ => ⟨h₁, k₁.toStays⟩⟩⟩
  · have hshut : Staying b c (cntlWriteShutdown env d) :=
      (hd.mono (fun _ => trivial) hc).writeSide.cntlWriteShutdown
    refine wp_mono (hshut w₁ h₁) ?_
    rintro _ w₂ ⟨h₂, k₂⟩
    rw [wp_cntlCodes_single]
    exact ⟨fun ha => absurd hs (hg.2.2 ha).1, fun _ => ⟨h₂, trans_of (Stays b c) k₁.toStays k₂⟩⟩
  · have he := k₁.endable (hg.2.2 ha).2
    refine wp_mono (cntlAbort_closed hd h₁ he.ended he.sslRead) ?_
    rintro _ w₂ ⟨h₂, k₂⟩
    exact ⟨h₂, trans_of (Stays b c) k₁.toStays (k₂.toStays he.shut he.offering)⟩

theorem call_stays {allow : World Stream π → Event → Prop} [∀ w e, Decidable (allow w e)]
    (hallow : ∀ w e, allow w e → EndsOnly b c w e) (hd : DelegateStays True c' d) (hc : c → c')
    (x : Call) : Staying b c (x.exec env d allow) := by
  intro w h
  have hd' : DelegateStays b c d := hd.mono (fun _ => trivial) hc
  unfold Call.exec
  rw [wp_bind, wp_get, wp_when]
  refine ⟨?_, fun _ => ⟨h, refl_of (Stays b c) w⟩⟩
  rintro ⟨_, hrun⟩
  have hrun : EndsOnly b c w (.call x) := hallow w _ hrun
  cases x with
  | write f =>
    rw [Call.perform, wp_bind]
    exact hd'.writeSide.write f w h
  | cntl codes =>
    rw [Call.perform, wp_bind]
    exact cntl_stays hd hc h hrun
  | enableSsl r =>
    rw [Call.perform, wp_bind]
    exact staying_enableSsl r w h
  | setPartial p =>
    exact h.mild ⟨⟨le_rfl, id, fun _ => id, id, id⟩, fun _ => id⟩
  | borrow type =>
    rw [Call.perform, wp_bind]
    exact staying_poolBorrow env.toContext type "application" 1 w h
  | frameReturn f => exact staying_frameReturn env.toContext f w h
  | fill f type vecs vecPosition data =>
    exact ((staying_getFrame f).bind fun x => staying_setFrame f _) w h

end Calls

section Runs

variable {c : Prop} {env env' : Env} {d : Delegate π} {w : World Stream π}
  {allow allow' : World Stream π → Event → Prop} [∀ w e, Decidable (allow w e)]
  [∀ w e, Decidable (allow' w e)]

theorem event_top (hallow : ∀ w e, allow w e → EndsOnly False False w e)
    (hd : DelegateStays True c d) (hg : d.getReadFrame ≠ none → c) (henv : SparesEnd env)
    (e : Event) (h : Top w) : wp (fun _ => True) (e.exec env d allow) (fun _ => Top) w := by
  unfold Event.exec
  cases e with
  | call x => exact h.staying (call_stays hallow hd False.elim x)
  | read =>
    rw [wp_bind, wp_get, wp_when]
    refine ⟨?_, fun _ => h⟩
    rintro ⟨hw, -⟩
    refine onRead_top hd hg henv ⟨h, fun he => ?_⟩
    exact absurd hw (by simp [(h.inv.shut he).2.1])
  | write =>
    rw [wp_bind, wp_get, wp_when]
    exact ⟨fun _ => onWrite_top hd hg henv h, fun _ => h⟩
  | error =>
    rw [wp_bind, wp_get, wp_when]
    refine ⟨fun _ => ?_, fun _ => h⟩
    rw [wp_bind, wp_modifySocket]
    exact (h.gentle (mild_stopped _).toGentle).staying (hd.weaken.writeSide.fail _ _)

/-- A delegate with `get_read_frame` aborts reading only while it is given a frame. -/
abbrev Fetches (script : Script) : Prop := script.getReadFrame.isSome = true

theorem scripted_stays (script : Script)
    (hallow : ∀ w e, allow w e → EndsOnly True (Fetches script) w e) (n : ℕ) :
    DelegateStays True (Fetches script) (scripted (π := π) env allow script n) :=
  scripted_preserves (fun _ h => h.tick) (fun _ f _ _ _ h _ => h.setFrame f _)
    (fun _ hd x => call_stays hallow hd id x) n

theorem endInv_opened (o : Opening) (proto : π) (data : FrameId → ℕ → UInt8) :
    EndInv (World.init (opened o) proto data) := by
  refine ⟨?_, by simp [World.init, ends], fun pre f post ht => by simp [World.init] at ht, ?_,
    fun he => absurd rfl he, fun hm => by simp [World.init, ends] at hm,
    fun pre eos post ht => by simp [World.init] at ht⟩
  all_goals cases o <;>
    simp [World.init, opened, writeSetEvent_eq, readSetEvent_eq, Stream.init]

theorem EndInv.endsOnce (h : EndInv w) : EndsOnce w where
  once := (List.length_filterMap_le _ _).trans h.once
  offered := h.offered
  resumed he hl := by
    obtain ⟨eos, hends⟩ := List.length_eq_one_iff.mp
      (le_antisymm h.once (List.length_pos_iff.mpr he))
    rw [hends]
    cases eos with
    | some f => rfl
    | none =>
      have hx := h.exhausted (by simp [hends])
      omega

theorem endOffers_of_silent {t : List Io} (h : offers t = 0) : endOffers t = [] := by
  refine List.filterMap_eq_nil_iff.mpr fun x hx => ?_
  have hn := List.countP_eq_zero.mp h x hx
  cases x with
  | offer f type => exact absurd rfl hn
  | _ => rfl

theorem endOffers_before {t t' : List Io}
    (hb : ∀ pre f post, t ++ t' = pre ++ .offer f .endOfStream :: post → ends pre ≠ [])
    (ht : ends t = []) : endOffers t = [] := by
  refine List.eq_nil_iff_forall_not_mem.mpr fun f hf => ?_
  obtain ⟨pre, post, rfl⟩ := List.append_of_mem (mem_endOffers.mp hf)
  rw [ends_append] at ht
  exact hb pre f (post ++ t') (by simp) (List.append_eq_nil_iff.mp ht).1

/-- The end-of-stream frames that were given are those with which reading ended, if there are none
before it ended. -/
theorem EndInv.endOffers_eq (h : EndInv w)
    (hb : ∀ pre f post, w.trace = pre ++ .offer f .endOfStream :: post → ends pre ≠ []) :
    endOffers w.trace = (ends w.trace).filterMap id := by
  by_cases he : ends w.trace = []
  · rw [he]
    rw [← List.append_nil w.trace] at hb
    exact endOffers_before hb he
  obtain ⟨eos, hends⟩ := List.length_eq_one_iff.mp
    (le_antisymm h.once (List.length_pos_iff.mpr he))
  obtain ⟨pre, post, ht⟩ := List.append_of_mem (mem_ends.mp (hends ▸ List.mem_singleton_self eos))
  have hpre : ends pre = [] := by
    have hlength := h.once
    have hone : (ends (.readEnd eos :: post)).length = (ends post).length + 1 := rfl
    rw [ht, ends_append, List.length_append] at hlength
    exact List.length_eq_zero_iff.mp (by omega)
  have hquiet := h.quiet pre eos post ht
  have hbefore : endOffers pre = [] := endOffers_before (ht ▸ hb) hpre
  rw [hends, ht, endOffers, List.filterMap_append]
  change endOffers pre ++ endOffers post = _
  rw [hbefore, List.nil_append]
  cases eos with
  | none => exact endOffers_of_silent hquiet
  | some f =>
    obtain ⟨post', rfl⟩ := h.offered pre f post ht
    have hsilent : offers post' = 0 := by simpa [offers] using hquiet
    exact congrArg (f :: ·) (endOffers_of_silent hsilent)

theorem EndsOnce.givenOnce (h : EndsOnce w)
    (he : endOffers w.trace = (ends w.trace).filterMap id) : GivenOnce w :=
  ⟨he ▸ h.once, fun hn hl => he ▸ h.resumed hn hl⟩

/-- In every run in which reading is ended once and not resumed after it ended without a frame, the
end of the stream is announced once. If users make no end-of-stream frames, and frames that were
sent do not come back to them, the delegate is given no other end-of-stream frame. -/
theorem run_endsOnce (henv : SparesEnd env) (script : Script)
    (hallow : ∀ w e, allow w e → EndsOnly False False w e)
    (hallow' : ∀ w e, allow' w e → EndsOnly True (Fetches script) w e) (n : ℕ) (o : Opening)
    (proto : π) (data : FrameId → ℕ → UInt8) (events : List Event) :
    wp (fun _ => True) (run env (scripted env' allow' script n) allow events) (fun _ w =>
      EndsOnce w ∧ ((∀ w e, allow w e → ¬e.MakesEndOfStream) →
        (∀ w e, allow' w e → ¬e.MakesEndOfStream) → script.frameReturn = none → GivenOnce w))
      (World.init (opened o) proto data) := by
  have hg : (scripted (π := π) env' allow' script n).getReadFrame ≠ none → Fetches script := by
    intro hg
    cases hs : script.getReadFrame with
    | none => exact absurd (by simp [scripted, Script.delegate, hs]) hg
    | some g => simp [Fetches, hs]
  have htop : Top (World.init (opened o) proto data) :=
    ⟨endInv_opened o proto data, by simp [Offering, World.init, offers, reads]⟩
  refine wp_mono (wp_and (wp_forM (fun e _ w h =>
    event_top hallow (scripted_stays script hallow' n) hg henv e h) htop)
    (EndFrames.run_behind script n o proto data events)) ?_
  rintro _ w ⟨h, hb⟩
  refine ⟨h.inv.endsOnce, fun ha ha' hr => ?_⟩
  exact h.inv.endsOnce.givenOnce (h.inv.endOffers_eq (hb ha ha' hr))

end Runs

section Examples

-- the run below a closed precondition is evaluated by the kernel alone
attribute [local irreducible] wp

/-- A peer that has closed, and a pool with a new frame at any time. -/
def closedEnv : Env :=
  { idleEnv with
    framePool := fun n => some ⟨0, n⟩
    recv := fun _ _ => .data [] }

/-- Reading is paused and resumed before the peer is found closed. -/
theorem run_endsOnce_closed :
    wp (fun _ => True) (run (π := Unit) closedEnv
      (scripted closedEnv
        (fun w e => EndsOnly True (Fetches idleScript) w e ∧ ¬e.MakesEndOfStream) idleScript 1)
      (fun w e => EndsOnly False False w e ∧ ¬e.MakesEndOfStream)
      [.call (.cntl {.READ_PAUSE}), .call (.cntl {.READ_RESUME}), .read])
      (fun _ w => EndsOnce w ∧ GivenOnce w) (World.init (opened .accept) () fun _ _ => 0) := by
  refine wp_mono (run_endsOnce (fun s n x hx hr => ?_) idleScript (fun _ _ h => h.1)
    (fun _ _ h => h.1) 1 .accept () _ _) fun _ w h => ?_
  · obtain rfl := SslReadResult.failed.inj hx
    exact absurd rfl hr
  · exact ⟨h.1, h.2 (fun _ _ h => h.2) (fun _ _ h => h.2) rfl⟩

/-- A second abort announces the end of the stream again, and nobody else made the frames. -/
theorem not_run_endsOnce_all :
    ¬∀ (env : Env) (script : Script), script.frameReturn = none →
      ∀ (n : ℕ) (o : Opening) (data : FrameId → ℕ → UInt8) (events : List Event),
      wp (fun _ => True) (run (π := Unit) env
        (scripted env (fun _ e => ¬e.MakesEndOfStream) script n) (fun _ e => ¬e.MakesEndOfStream)
        events) (fun _ w => EndsOnce w ∨ GivenOnce w) (World.init (opened o) () data) := by
  intro h
  obtain ⟨_, w, hw, ht⟩ := wp_observe (h closedEnv idleScript rfl 1 .accept (fun _ _ => 0)
      [.call (.cntl {.ABORT}), .call (.cntl {.ABORT})])
    (g := fun r => (((ends r.2.trace).filterMap id).length, (endOffers r.2.trace).length))
    (b := (2, 2)) (by decide +kernel)
  obtain ⟨hends, hoffers⟩ := Prod.mk.inj ht
  rcases hw with hw | hw
  · exact absurd (hends ▸ hw.once) (by simp)
  · exact absurd (hoffers ▸ hw.once) (by simp)

end Examples

end Stream

end FrameTransporter
