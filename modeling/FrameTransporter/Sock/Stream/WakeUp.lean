import FrameTransporter.Mempool.Ownership
import FrameTransporter.Sock.Stream.Custody
import FrameTransporter.Sock.Stream.Terminal

/-! # A plain stream wakes up to write

While frames wait to be written, the write watcher is to be active. A write event
takes the wish to write back before it writes, so each way out of the write loop
has to bring it back. The way out behind an end-of-stream frame does not, but that
frame is the last one of the queue.
-/

namespace FrameTransporter

open Hoare Intrusive

namespace Stream.WakeUp

open ReadEvent WriteEvent

variable {π : Type}

/-- A stream without TLS has the listed frames in its write queue. -/
structure Holds (w : World Stream π) (q : List FrameId) : Prop extends Custody w q where
  ssl : w.socket.ssl = false

def Inv (w : World Stream π) : Prop := ∃ q, Holds w q

/-- A connected stream with frames to write waits for a write event, unless it has failed. -/
def Waits (w : World Stream π) : Prop :=
  ¬Failed w → w.socket.writeFrames ≠ none → w.socket.connecting = false →
    WRITE_WANT_WRITE ∈ w.socket.writeEvents ∧ w.socket.writeWatcher = true

/-- What no call undoes: a closed write side stays closed and then empty, and a failed stream stays
so. -/
structure Later (w w' : World Stream π) : Prop where
  closed : w.socket.writeOpen = false → w'.socket.writeOpen = false
  empty : w.socket.writeOpen = false → w.socket.writeFrames = none → w'.socket.writeFrames = none
  failed : Failed w → Failed w'

instance : IsPreorder (World Stream π) Later where
  refl _ := ⟨id, fun _ => id, id⟩
  trans _ _ _ h h' := ⟨h'.closed ∘ h.closed, fun ho hf => h'.empty (h.closed ho) (h.empty ho hf),
    h'.failed ∘ h.failed⟩

/-- A change of the socket beside its frames, which leaves TLS alone. -/
structure Beside (s s' : Stream) : Prop extends FramesKept s s' where
  ssl : s'.ssl = s.ssl

/-- A change of the socket that is no business of the write side. -/
structure Aside (s s' : Stream) : Prop where
  writeFrames : s'.writeFrames = s.writeFrames
  connecting : s'.connecting = s.connecting
  want : WRITE_WANT_WRITE ∈ s.writeEvents → WRITE_WANT_WRITE ∈ s'.writeEvents
  watcher : s.writeWatcher = true → s'.writeWatcher = true

/-- A condition on the stream that holds while it waits, and is no business of the read side. -/
structure Lasting (J : World Stream π → Prop) : Prop where
  aside : ∀ w w', Aside w.socket w'.socket → (Failed w → Failed w') → J w → J w'
  of_waits : ∀ w, Waits w → J w

section States

variable {w w' : World Stream π} {q : List FrameId} {f : FrameId} {x : Frame} {s s' : Stream}

theorem Aside.refl (s : Stream) : Aside s s := ⟨rfl, rfl, id, id⟩

theorem Aside.waits (h : Aside w.socket w'.socket) (hfail : Failed w → Failed w') (hw : Waits w) :
    Waits w' := by
  intro hn hf hc
  obtain ⟨hwant, hwatch⟩ := hw (hn ∘ hfail) (h.writeFrames ▸ hf) (h.connecting ▸ hc)
  exact ⟨h.want hwant, h.watcher hwatch⟩

theorem Later.setFrame (h : Later w w') : Later w (w'.setFrame f x) :=
  ⟨h.closed, h.empty, h.failed⟩

theorem lasting_waits : Lasting (Waits (π := π)) := ⟨fun _ _ => Aside.waits, fun _ => id⟩

theorem lasting_true : Lasting fun _ : World Stream π => True :=
  ⟨fun _ _ _ _ => id, fun _ _ => trivial⟩

theorem waits_of_failed (h : Failed w) : Waits w := fun hn => absurd h hn

theorem waits_of_empty (h : w.socket.writeFrames = none) : Waits w := fun _ hf => absurd h hf

theorem failed_record {y : Io} (h : Failed w) : Failed (w.record y) := by
  obtain ⟨x, hx, hr⟩ := h
  exact ⟨x, by simp [hx], hr⟩

theorem Holds.tick (h : Holds w q) : Holds w.tick q := ⟨h.toCustody.tick, h.ssl⟩

theorem Holds.record (h : Holds w q) (y : Io) : Holds (w.record y) q :=
  ⟨h.toCustody.record y, h.ssl⟩

theorem Holds.setSocket (h : Holds w q) (hs : Beside w.socket s) : Holds (w.setSocket s) q :=
  ⟨h.toCustody.setSocket hs.toFramesKept, hs.ssl.trans h.ssl⟩

theorem Holds.setFrame (h : Holds w q)
    (hx : w.owner f = .writer → x.next = (w.heap f).next ∧ x.type = (w.heap f).type) :
    Holds (w.setFrame f x) q := ⟨h.toCustody.setFrame hx, h.ssl⟩

theorem Holds.setOwner {o : Owner} (h : Holds w q) (hf : f ∉ q)
    (hr : w.socket.readFrame = some f → o = .reader) : Holds (w.setOwner f o) q :=
  ⟨h.toCustody.setOwner hf hr, h.ssl⟩

theorem Holds.attach (h : Holds w q) (hf : w.owner f ≠ .writer) :
    Holds ((w.setOwner f .reader).setSocket { w.socket with readFrame := some f }) q :=
  ⟨h.toCustody.attach hf, h.ssl⟩

theorem Holds.dequeue (h : Holds w (f :: q)) (last : Link FrameId) (n : ℕ)
    (hl : w.socket.writeOpen = true →
      last = if (w.heap f).next = none then .head else w.socket.writeFrameLast) :
    Holds (w.setSocket { w.socket with
      writeQueueLength := n, writeFrames := (w.heap f).next, writeFrameLast := last }) q :=
  ⟨h.toCustody.dequeue last n hl, h.ssl⟩

theorem Holds.enqueue (h : Holds w q) (hop : w.socket.writeOpen = true) (hf : w.owner f = .user) :
    Holds (queued w f) (q ++ [f]) := ⟨h.toCustody.enqueue hop hf, h.ssl⟩

theorem holds_init (o : Opening) (proto : π) (data : FrameId → ℕ → UInt8) :
    Holds (World.init (opened o) proto data) [] := by
  refine ⟨custody_init o proto data, ?_⟩
  cases o <;> rfl

end States

section Functions

variable {env : Env} {d : Delegate π} {J : World Stream π → Prop} {w : World Stream π}
  {f : FrameId} {q : List FrameId}

/-- Every fault is admitted: a run that stops reaches no further state. -/
abbrev Keeps {α : Type} (J : World Stream π → Prop) (m : StreamM π α) : Prop :=
  Preserves (fun _ => True) (fun w => Inv w ∧ J w) Later m

/-- The delegate keeps the condition, and leaves frames alone that are not its own. -/
structure DelegateKeeps (J : World Stream π → Prop) (d : Delegate π) : Prop extends
    d.AnswersOwn where
  preserves : d.Preserves (fun _ => True) (fun w => Inv w ∧ J w) Later

/-- A change beside the write queue is no business of the write side if nothing else is. -/
theorem later_of_beside {s : Stream} (hs : Beside w.socket s) : Later w (w.setSocket s) :=
  ⟨hs.writeOpen, fun _ hf => hs.writeFrames.trans hf, id⟩

theorem keeps_modifySocket (hJ : Lasting J) {g : Stream → Stream} (hb : ∀ s, Beside s (g s))
    (ha : ∀ s, Aside s (g s)) : Keeps J (modifySocket g) :=
  fun w ⟨⟨q, h⟩, hj⟩ => ⟨⟨⟨q, h.setSocket (hb w.socket)⟩,
    hJ.aside w _ (ha w.socket) id hj⟩, later_of_beside (hb w.socket)⟩

theorem keeps_ask (hJ : Lasting J) {α : Type} (r : ℕ → α) :
    Keeps J (ask (σ := Stream) (π := π) r) :=
  fun w ⟨⟨q, h⟩, hj⟩ => ⟨⟨⟨q, h.tick⟩, hJ.aside w w.tick (.refl _) id hj⟩, id, fun _ => id, id⟩

theorem keeps_record (hJ : Lasting J) (y : Io) :
    Keeps J (FrameTransporter.record (σ := Stream) (π := π) y) :=
  fun w ⟨⟨q, h⟩, hj⟩ => ⟨⟨⟨q, h.record y⟩, hJ.aside w _ (.refl _) failed_record hj⟩,
    id, fun _ => id, failed_record⟩

theorem beside_readSetEvent (e : Finset ReadEvent) (s : Stream) :
    Beside s (readSetEvent e s) ∧ Aside s (readSetEvent e s) := by
  rw [readSetEvent_eq]
  exact ⟨⟨⟨rfl, rfl, id, fun _ => id⟩, rfl⟩, rfl, rfl, id, id⟩

theorem beside_readUnsetEvent (e : Finset ReadEvent) (s : Stream) :
    Beside s (readUnsetEvent e s) ∧ Aside s (readUnsetEvent e s) := by
  rw [readUnsetEvent_eq]
  exact ⟨⟨⟨rfl, rfl, id, fun _ => id⟩, rfl⟩, rfl, rfl, id, id⟩

theorem beside_writeSetEvent (e : Finset WriteEvent) (s : Stream) :
    Beside s (writeSetEvent e s) := by
  rw [writeSetEvent_eq]
  exact ⟨⟨rfl, rfl, id, fun _ => id⟩, rfl⟩

theorem aside_writeSetEvent (s : Stream) : Aside s (writeSetEvent {WRITE_WANT_WRITE} s) := by
  rw [writeSetEvent_eq]
  refine ⟨rfl, rfl, fun h => Finset.mem_union_left _ h, fun h => ?_⟩
  dsimp only
  split
  · rfl
  · exact h

theorem beside_writeUnsetEvent (e : Finset WriteEvent) (s : Stream) :
    Beside s (writeUnsetEvent e s) := by
  rw [writeUnsetEvent_eq]
  exact ⟨⟨rfl, rfl, id, fun _ => id⟩, rfl⟩

theorem beside_awaitWrite (s : Stream) : Beside s (awaitWrite s) := by
  obtain ⟨⟨a, b, c, e⟩, g⟩ := beside_writeSetEvent {WRITE_WANT_WRITE} { s with writeReady := false }
  exact ⟨⟨a, b, c, e⟩, g⟩

/-- A wish to write starts the watcher. -/
theorem wanted_writeSetEvent (s : Stream) :
    WRITE_WANT_WRITE ∈ (writeSetEvent {WRITE_WANT_WRITE} s).writeEvents ∧
      (writeSetEvent {WRITE_WANT_WRITE} s).writeWatcher = true := by
  rw [writeSetEvent_eq]
  refine ⟨Finset.mem_union_right _ (Finset.mem_singleton_self _), if_pos fun h => ?_⟩
  have hm : WRITE_WANT_WRITE ∈ s.writeEvents ∪ {WRITE_WANT_WRITE} := by simp
  simp [h] at hm

theorem waits_writeSetEvent (w : World Stream π) (s : Stream) :
    Waits (w.setSocket (writeSetEvent {WRITE_WANT_WRITE} s)) := fun _ _ _ => wanted_writeSetEvent s

/-- Only a stream without wishes loses its watcher. -/
theorem waits_writeUnsetEvent (h : Waits w)
    (he : w.socket.writeFrames = none ∨ w.socket.writeEvents = ∅) :
    Waits (w.setSocket (writeUnsetEvent {WRITE_WANT_WRITE} w.socket)) := by
  intro hn hf hc
  have hf : w.socket.writeFrames ≠ none := by
    rwa [World.setSocket_socket, writeUnsetEvent_eq] at hf
  have hc : w.socket.connecting = false := by
    rwa [World.setSocket_socket, writeUnsetEvent_eq] at hc
  rcases he with he | he
  · exact absurd he hf
  · have hwant := (h hn hf hc).1
    simp [he] at hwant

theorem keeps_cntlReadPause (hJ : Lasting J) (on : Bool) :
    Keeps J (cntlReadPause (π := π) on) := by
  refine preserves_getSocket_bind fun w hw => ?_
  cases on with
  | true =>
    refine ((keeps_modifySocket hJ (fun s => ?_) fun s => ?_).bind fun _ =>
      (Preserves.when _ fun _ => keeps_modifySocket hJ (fun s => (beside_readUnsetEvent ∅ s).1)
        fun s => (beside_readUnsetEvent ∅ s).2).bind fun _ => preserves_pure _) w hw
    · exact ⟨⟨rfl, rfl, id, fun _ => id⟩, rfl⟩
    · exact ⟨rfl, rfl, id, id⟩
  | false =>
    refine (Preserves.ite _ (fun _ => Hoare.preserves_throw trivial) fun _ =>
      (keeps_modifySocket hJ (fun s => ?_) fun s => ?_).bind fun _ =>
        (Preserves.when _ fun _ => keeps_modifySocket hJ (fun s => (beside_readSetEvent ∅ s).1)
          fun s => (beside_readSetEvent ∅ s).2).bind fun _ => preserves_pure _) w hw
    · exact ⟨⟨rfl, rfl, id, fun _ => id⟩, rfl⟩
    · exact ⟨rfl, rfl, id, id⟩

theorem keeps_pauseNoframes (hJ : Lasting J) : Keeps J (pauseNoframes (π := π)) := by
  refine (keeps_modifySocket hJ (fun s => ?_) fun s => ?_).bind fun _ =>
    (keeps_cntlReadPause hJ true).bind fun _ => preserves_pure _
  · exact ⟨⟨rfl, rfl, id, fun _ => id⟩, rfl⟩
  · exact ⟨rfl, rfl, id, id⟩

/-- A borrowed frame is the user's. -/
theorem poolBorrow_wp (hJ : Lasting J) (ctx : Context) (type : FrameType) (file : String)
    (line : ℕ) (h : Inv w) (hj : J w) :
    wp (fun _ => True) (poolBorrow ctx type file line) (fun r w' => ((Inv w' ∧ J w') ∧ Later w w') ∧
      ∀ f, r = some f → w'.owner f = .user) w := by
  obtain ⟨q, h⟩ := h
  have hnone : (Inv w.tick ∧ J w.tick) ∧ Later w w.tick := keeps_ask hJ (fun _ => ()) w ⟨⟨q, h⟩, hj⟩
  rw [poolBorrow, wp_bind, wp_ask, wp_bind, wp_get]
  cases ctx.framePool w.clock with
  | none => exact ⟨hnone, by simp⟩
  | some f =>
    dsimp only
    rw [wp_ite]
    refine ⟨fun ho => ?_, fun _ => ⟨hnone, by simp⟩⟩
    have ho : w.owner f = .pool := ho
    have h₁ := h.tick.setFrame (f := f) (x := Pool.resetFrame (w.heap f) type file line)
      (by simp [ho])
    have h₂ := h₁.setOwner (f := f) (o := .user) (h₁.not_mem (by simp [ho])) fun hr => by
      simp [h.reader f hr] at ho
    refine ⟨⟨⟨⟨q, h₂⟩, ?_⟩, id, fun _ => id, id⟩, fun g hg => ?_⟩
    · exact hJ.aside w _ (.refl _) id hj
    · obtain rfl := Option.some.inj hg
      simp

/-- A frame of the user goes back to the pool. -/
theorem frameReturn_wp (hJ : Lasting J) (ctx : Context) (h : Inv w) (hj : J w)
    (ho : w.owner f = .user) :
    wp (fun _ => True) (frameReturn ctx f) (fun _ w' => (Inv w' ∧ J w') ∧ Later w w') w := by
  obtain ⟨q, h⟩ := h
  rw [frameReturn, wp_bind, wp_getFrame, wp_ite, wp_ite, wp_ite]
  refine ⟨fun _ => trivial, fun _ => ⟨fun _ => trivial, fun _ => ⟨fun _ => trivial, fun _ => ?_⟩⟩⟩
  rw [wp_bind, wp_ask, wp_bind, wp_setFrame, wp_bind, wp_setOwner, wp_record]
  have h₁ := h.tick.setFrame (f := f) (x := { w.heap f with
    type := .free, next := ctx.availableFrames w.clock, lastSeenByFile := none,
    lastSeenByLine := 0 }) (by simp [ho])
  have h₂ := h₁.setOwner (f := f) (o := .pool) (h₁.not_mem (by simp [ho])) fun hr => by
    simp [h.reader f hr] at ho
  refine ⟨⟨⟨q, h₂.record _⟩, ?_⟩, id, fun _ => id, failed_record⟩
  exact hJ.aside w _ (.refl _) failed_record hj

/-- The socket has nothing to do with the frame any more. -/
def Lets (f : FrameId) (w : World Stream π) : Prop :=
  ∃ q, Holds w q ∧ f ∉ q ∧ w.socket.readFrame ≠ some f

theorem Lets.inv (h : Lets f w) : Inv (w.setOwner f .user) := by
  obtain ⟨q, h, hf, hr⟩ := h
  exact ⟨q, h.setOwner hf fun he => absurd he hr⟩

theorem lets_of_user (h : Inv w) (ho : w.owner f = .user) : Lets f w := by
  obtain ⟨q, h⟩ := h
  refine ⟨q, h, h.not_mem (by simp [ho]), fun hr => ?_⟩
  simp [h.reader f hr] at ho

theorem releaseFrame_wp (hJ : Lasting J) (hd : DelegateKeeps J d) (side : Char) (h : Lets f w)
    (hj : J w) :
    wp (fun _ => True) (releaseFrame env d f side) (fun _ w' => (Inv w' ∧ J w') ∧ Later w w')
      w := by
  have h₁ : Inv ((w.setOwner f .user).record (.release f side)) :=
    h.inv.imp fun _ hq => hq.record _
  have hj₁ : J ((w.setOwner f .user).record (.release f side)) :=
    hJ.aside w _ (.refl _) failed_record hj
  have l₁ : Later w ((w.setOwner f .user).record (.release f side)) :=
    ⟨id, fun _ => id, failed_record⟩
  rw [releaseFrame, wp_bind, wp_setOwner, wp_bind, wp_record]
  cases hg : d.frameReturn with
  | none =>
    refine wp_mono (frameReturn_wp hJ env.toContext h₁ hj₁ (by simp)) fun _ w' h' => ?_
    exact ⟨h'.1, trans_of Later l₁ h'.2⟩
  | some g =>
    refine wp_mono (hd.preserves.frameReturn g hg f side _ ⟨h₁, hj₁⟩) fun _ w' h' => ?_
    exact ⟨h'.1, trans_of Later l₁ h'.2⟩

/-- Whatever the delegate answers, the frame it refuses is its own. -/
theorem deliver_wp (hJ : Lasting J) (hd : DelegateKeeps J d) (last : Bool) (h : Lets f w)
    (hj : J w) :
    wp (fun _ => True) (deliver d f last) (fun taken w' => ((Inv w' ∧ J w') ∧ Later w w') ∧
      (taken = false → w'.owner f = .user)) w := by
  have h₁ : Inv ((w.setOwner f .user).record (.offer f (w.heap f).type)) :=
    h.inv.imp fun _ hq => hq.record _
  have hj₁ : J ((w.setOwner f .user).record (.offer f (w.heap f).type)) :=
    hJ.aside w _ (.refl _) failed_record hj
  rw [deliver, wp_bind, wp_getFrame, wp_bind, wp_setOwner, wp_bind, wp_record, wp_bind]
  refine wp_mono (wp_and (hd.preserves.read f _ ⟨h₁, hj₁⟩) (hd.refuse f _)) ?_
  rintro taken w₂ ⟨⟨⟨⟨q, h₂⟩, hj₂⟩, l₂⟩, ho⟩
  refine ⟨⟨⟨⟨q, h₂.record _⟩, ?_⟩, l₂.closed, l₂.empty, fun hf => ?_⟩, ho⟩
  · exact hJ.aside w₂ _ (.refl _) failed_record hj₂
  · exact failed_record (l₂.failed (failed_record hf))

theorem deliverOrRelease_wp (hJ : Lasting J) (hd : DelegateKeeps J d) (last : Bool)
    (h : Lets f w) (hj : J w) :
    wp (fun _ => True) (deliverOrRelease env d f last)
      (fun _ w' => (Inv w' ∧ J w') ∧ Later w w') w := by
  rw [deliverOrRelease, wp_bind]
  refine wp_mono (deliver_wp hJ hd last h hj) ?_
  rintro taken w₁ ⟨⟨⟨h₁, hj₁⟩, l₁⟩, ho⟩
  rw [wp_ite]
  refine ⟨fun _ => ⟨⟨h₁, hj₁⟩, l₁⟩, fun ht => ?_⟩
  have hl : Lets f w₁ := lets_of_user h₁ (ho (by simpa using ht))
  exact wp_mono (releaseFrame_wp hJ hd 'R' hl hj₁) fun _ _ h' =>
    ⟨h'.1, trans_of Later l₁ h'.2⟩

/-- Afterwards the stream waits if it has to. -/
def Settles (m : StreamM π Unit) : Prop := ∀ w, Inv w →
  wp (fun _ => True) m (fun _ w' => (Inv w' ∧ Waits w') ∧ Later w w') w

theorem Settles.keeps {m : StreamM π Unit} (hJ : Lasting J) (hm : Settles m) : Keeps J m :=
  fun w ⟨h, _⟩ => wp_mono (hm w h) fun _ w' ⟨⟨h', hw⟩, l⟩ => ⟨⟨h', hJ.of_waits w' hw⟩, l⟩

theorem settles_modifySocket {g : Stream → Stream} (hb : ∀ s, Beside s (g s))
    (hw : ∀ w : World Stream π, Waits (w.setSocket (g w.socket))) :
    Settles (modifySocket (π := π) g) :=
  fun w ⟨q, h⟩ => ⟨⟨⟨q, h.setSocket (hb w.socket)⟩, hw w⟩, later_of_beside (hb w.socket)⟩

theorem settles_awaitWrite : Settles (modifySocket (π := π) awaitWrite) :=
  settles_modifySocket beside_awaitWrite fun w => waits_writeSetEvent w _

/-- A failed stream waits for nothing. -/
theorem settles_error (hd : DelegateKeeps (fun _ => True) d) (e : Option Errno) (l : ℕ) :
    Settles (Stream.error env d e l) := by
  rintro w ⟨q, h⟩
  rw [Stream.error, wp_ite]
  refine ⟨fun _ => trivial, fun _ => ?_⟩
  rw [wp_bind, wp_ask, wp_bind, wp_modifySocket, wp_bind, wp_getSocket, wp_bind, wp_record, wp_bind]
  have hs : Beside w.socket (failed (env.evNow w.clock) e l w.socket) :=
    ⟨⟨rfl, rfl, fun _ => rfl, fun _ => id⟩, rfl⟩
  have h₁ := (h.tick.setSocket hs).record (.error e w.socket.readFrame)
  have hfail : Failed ((w.tick.setSocket (failed (env.evNow w.clock) e l w.socket)).record
      (.error e w.socket.readFrame)) :=
    ⟨_, List.mem_append_right _ (List.mem_singleton_self _), trivial⟩
  refine wp_mono (hd.preserves.error _ ⟨⟨q, h₁⟩, trivial⟩) ?_
  rintro _ w₂ ⟨⟨⟨q, h₂⟩, _⟩, l₂⟩
  rw [wp_bind, wp_modifySocket, wp_bind, wp_modifySocket, wp_record]
  have hs₂ : Beside w₂.socket (stopped w₂.socket) := ⟨⟨rfl, rfl, id, fun _ => id⟩, rfl⟩
  refine ⟨⟨⟨q, (h₂.setSocket hs₂).record _⟩, waits_of_failed (failed_record (l₂.failed hfail))⟩, ?_⟩
  exact ⟨fun _ => l₂.closed rfl, fun _ hf => l₂.empty rfl hf,
    fun _ => failed_record (l₂.failed hfail)⟩

/-- Either the write loop returns and the stream waits, or bytes were taken and nothing else
happened. -/
theorem transmit_wp (hd : DelegateKeeps (fun _ => True) d) (bytes : List UInt8)
    (h : Holds w q) :
    wp (fun _ => True) (transmit env d bytes) (fun r w' =>
      (r = none → (Inv w' ∧ Waits w') ∧ Later w w') ∧
        (r ≠ none → w'.heap = w.heap ∧ Holds w' q ∧ Later w w')) w := by
  have hrec : ∀ y, Holds (w.tick.record y) q ∧ Later w (w.tick.record y) :=
    fun y => ⟨h.tick.record y, id, fun _ => id, failed_record⟩
  have hstop : ∀ {m : StreamM π Unit} (y : Io), Settles m →
      wp (fun _ => True) (m >>= fun _ => pure none) (fun (r : Option ℕ) w' =>
        (r = none → (Inv w' ∧ Waits w') ∧ Later w w') ∧
          (r ≠ none → w'.heap = w.heap ∧ Holds w' q ∧ Later w w')) (w.tick.record y) := by
    intro m y hm
    rw [wp_bind]
    refine wp_mono (hm _ ⟨q, (hrec y).1⟩) fun _ w' h' => ⟨fun _ => ⟨h'.1, ?_⟩, by simp⟩
    exact trans_of Later (hrec y).2 h'.2
  rw [transmit, wp_bind, wp_getSocket, if_pos h.ssl, wp_bind, wp_ask]
  cases env.send w.socket w.clock with
  | failed e =>
    have herr : Settles (Stream.error env d (some e) 0) := settles_error hd (some e) 0
    cases e with
    | EAGAIN => exact hstop _ settles_awaitWrite
    | _ => exact hstop _ herr
  | sent n =>
    dsimp only
    rw [wp_bind, wp_record, wp_ite]
    exact ⟨fun _ => hstop _ settles_awaitWrite, fun _ => ⟨by simp, fun _ => ⟨rfl, hrec _⟩⟩⟩

theorem dequeueFrame_wp (hd : DelegateKeeps (fun _ => True) d) (h : Holds w (f :: q)) :
    wp (fun _ => True) (dequeueFrame env d f) (fun _ w' => Inv w' ∧ Later w w') w := by
  have hne : w.socket.writeFrames ≠ none := by simp [(chain_cons.mp h.chain).1]
  rw [dequeueFrame, wp_bind, wp_getSocket, wp_bind, wp_getFrame, wp_ite]
  refine ⟨fun _ => trivial, fun _ => ?_⟩
  rw [wp_bind, wp_modifySocket]
  have h₁ := h.dequeue (if (w.heap f).next = none then .head else w.socket.writeFrameLast)
    (w.socket.writeQueueLength - 1) fun _ => rfl
  have hl : Lets f (w.setSocket { w.socket with
      writeQueueLength := w.socket.writeQueueLength - 1
      writeFrames := (w.heap f).next
      writeFrameLast := if (w.heap f).next = none then .head else w.socket.writeFrameLast }) :=
    ⟨q, h₁, h.front⟩
  refine wp_mono (releaseFrame_wp lasting_true hd 'W' hl trivial) fun _ w' h' => ⟨h'.1.1, ?_⟩
  exact ⟨h'.2.closed, fun _ hn => absurd hn hne, h'.2.failed⟩

/-- Either the write loop goes on, or the stream waits. -/
theorem writeVec_wp (hd : DelegateKeeps (fun _ => True) d) (h : Holds w (f :: q)) :
    wp (fun _ => True) (writeVec env d f) (fun more w' =>
      (Inv w' ∧ (more = false → Waits w')) ∧ Later w w') w := by
  rw [writeVec, wp_bind, wp_getFrame, wp_bind]
  cases (w.heap f).getVec with
  | error e => trivial
  | ok v =>
    rw [wp_liftM_ok]
    cases v with
    | none => trivial
    | some v =>
      dsimp only
      rw [wp_ite]
      refine ⟨fun _ => trivial, fun _ => ?_⟩
      rw [wp_bind]
      refine wp_mono (transmit_wp hd _ h) fun r w₁ h₁ => ?_
      cases r with
      | none =>
        obtain ⟨⟨h₁, hw₁⟩, l₁⟩ := h₁.1 rfl
        exact ⟨⟨h₁, fun _ => hw₁⟩, l₁⟩
      | some n =>
        obtain ⟨hheap, h₁, l₁⟩ := h₁.2 (by simp)
        dsimp only
        rw [wp_bind]
        cases hx : (w.heap f).advanceVec v n with
        | error e => trivial
        | ok x =>
          have hs := Frame.SameHeader.of_advanceVec hx
          rw [← hheap] at hs
          have h₂ := h₁.setFrame (f := f) (x := x) fun _ => ⟨hs.next, hs.type⟩
          rw [wp_liftM_ok, wp_bind, wp_setFrame, wp_ite]
          refine ⟨fun _ => ?_, fun _ => ?_⟩
          · rw [wp_bind]
            refine wp_mono (settles_awaitWrite _ ⟨_, h₂⟩) fun _ w' h' => ?_
            exact ⟨⟨h'.1.1, fun _ => h'.1.2⟩, trans_of Later l₁.setFrame h'.2⟩
          · rw [wp_bind]
            cases hy : x.nextVec with
            | error e => trivial
            | ok r =>
              obtain ⟨more, y⟩ := r
              have hs' := Frame.SameHeader.of_nextVec hy
              have h₃ := h₂.setFrame (f := f) (x := y) fun _ => by simp [hs'.next, hs'.type]
              rw [wp_liftM_ok, wp_bind, wp_setFrame, wp_ite]
              refine ⟨fun _ => ⟨⟨⟨_, h₃⟩, by simp⟩, l₁.setFrame.setFrame⟩, fun _ => ?_⟩
              rw [wp_bind]
              refine wp_mono (dequeueFrame_wp hd h₃) fun _ w' h' => ?_
              exact ⟨⟨h'.1, by simp⟩, trans_of Later l₁.setFrame.setFrame h'.2⟩

/-- Behind an end-of-stream frame nothing waits. -/
theorem writeEndOfStream_wp (hd : DelegateKeeps (fun _ => True) d) (h : Holds w (f :: q))
    (ht : (w.heap f).type = .endOfStream) :
    wp (fun _ => True) (writeEndOfStream env d f)
      (fun _ w' => (Inv w' ∧ Waits w') ∧ Later w w') w := by
  obtain ⟨rfl, ho⟩ := h.eq_nil ht
  obtain ⟨hf, hnext⟩ := chain_cons.mp h.chain
  have hnext : (w.heap f).next = none := hnext
  have hl : Lets f (w.setSocket { w.socket with writeFrames := (w.heap f).next }) := by
    refine ⟨[], h.dequeue w.socket.writeFrameLast w.socket.writeQueueLength fun hop => ?_, h.front⟩
    simp [ho] at hop
  rw [writeEndOfStream, wp_bind, wp_getFrame, wp_bind, wp_modifySocket, wp_bind]
  refine wp_mono (releaseFrame_wp lasting_true hd 'W' hl trivial) ?_
  rintro _ w₁ ⟨⟨⟨q, h₁⟩, _⟩, l₁⟩
  have he₁ : w₁.socket.writeFrames = none := l₁.empty ho hnext
  rw [wp_bind, wp_getSocket, wp_ite]
  refine ⟨fun _ => trivial, fun _ => ?_⟩
  rw [wp_bind, wp_modifySocket, if_neg (by simp [h₁.ssl]), wp_bind, wp_ask, wp_bind,
    wp_modifySocket, wp_record]
  have hs₂ : Beside w₁.socket (writeShut (env.evNow w₁.clock)
      (writeUnsetEvent {WRITE_WANT_WRITE} w₁.socket)) := by
    rw [writeUnsetEvent_eq]
    exact ⟨⟨rfl, rfl, id, fun _ => id⟩, rfl⟩
  have h₂ := (h₁.setSocket hs₂).tick.record (.shutdown .SHUT_WR)
  refine ⟨⟨⟨q, h₂⟩, waits_of_empty (hs₂.writeFrames.trans he₁)⟩, ?_, ?_, ?_⟩
  · exact fun hc => hs₂.writeOpen (l₁.closed hc)
  · exact fun _ hn => by simp [hf] at hn
  · exact fun hfail => failed_record (l₁.failed hfail)

theorem settles_writeLoop (hd : DelegateKeeps (fun _ => True) d) (n : ℕ) :
    Settles (writeLoop env d n) := by
  induction n with
  | zero =>
    intro w h
    rw [writeLoop, wp_bind, wp_getSocket, wp_when]
    refine ⟨fun _ => settles_awaitWrite w h, fun hf => ⟨⟨h, ?_⟩, refl_of Later w⟩⟩
    exact waits_of_empty (not_not.mp hf)
  | succ n ih =>
    intro w h
    rw [writeLoop, wp_bind, wp_getSocket]
    cases hf : w.socket.writeFrames with
    | none => exact ⟨⟨h, waits_of_empty hf⟩, refl_of Later w⟩
    | some f =>
      obtain ⟨q, h⟩ := h
      obtain ⟨q, rfl, -⟩ := (hf ▸ h.chain).exists_cons
      dsimp only
      rw [wp_bind, wp_getFrame, wp_ite]
      refine ⟨writeEndOfStream_wp hd h, fun _ => ?_⟩
      rw [wp_bind]
      refine wp_mono (writeVec_wp hd h) ?_
      rintro more w₁ ⟨⟨h₁, hw₁⟩, l₁⟩
      rw [wp_ite]
      refine ⟨fun _ => ?_, fun hm => ⟨⟨h₁, hw₁ (by simpa using hm)⟩, l₁⟩⟩
      exact wp_mono (ih w₁ h₁) fun _ w₂ h₂ => ⟨h₂.1, trans_of Later l₁ h₂.2⟩

theorem settles_writeReal (hd : DelegateKeeps (fun _ => True) d) : Settles (writeReal env d) := by
  intro w h
  rw [writeReal, wp_bind, wp_getSocket, wp_ite, wp_ite]
  exact ⟨fun _ => trivial, fun _ => ⟨fun _ => trivial, fun _ => settles_writeLoop hd _ w h⟩⟩

theorem settles_onWriteEvent (hd : DelegateKeeps (fun _ => True) d) :
    Settles (onWriteEvent env d) := by
  rintro w ⟨q, h⟩
  rw [onWriteEvent, wp_bind, wp_getSocket, wp_ite]
  refine ⟨fun _ => trivial, fun _ => ?_⟩
  rw [wp_bind, wp_modifySocket, wp_ite]
  refine ⟨fun _ => ?_, fun hf => ?_⟩
  · have hs : Beside w.socket { w.socket with
        writeReady := true, writeEvents := w.socket.writeEvents \ {WRITE_WANT_WRITE} } :=
      ⟨⟨rfl, rfl, id, fun _ => id⟩, rfl⟩
    rw [wp_bind, wp_modifySocket, wp_bind]
    refine wp_mono (settles_writeReal hd _ ⟨q, h.setSocket hs⟩) ?_
    rintro _ w₁ ⟨⟨h₁, hw₁⟩, l₁⟩
    have l₁ : Later w w₁ := trans_of Later (later_of_beside hs) l₁
    rw [wp_bind, wp_getSocket, wp_when]
    refine ⟨fun he => ?_, fun _ => ⟨⟨h₁, hw₁⟩, l₁⟩⟩
    obtain ⟨q₁, h₁⟩ := h₁
    have hs₁ := beside_writeUnsetEvent {WRITE_WANT_WRITE} w₁.socket
    exact ⟨⟨⟨q₁, h₁.setSocket hs₁⟩, waits_writeUnsetEvent hw₁ (Or.inr he)⟩,
      trans_of Later l₁ (later_of_beside hs₁)⟩
  · have hs : Beside w.socket (writeUnsetEvent {WRITE_WANT_WRITE}
        { w.socket with writeReady := true }) := by
      rw [writeUnsetEvent_eq]
      exact ⟨⟨rfl, rfl, id, fun _ => id⟩, rfl⟩
    refine ⟨⟨⟨q, h.setSocket hs⟩, waits_of_empty ?_⟩, later_of_beside hs⟩
    exact hs.writeFrames.trans (not_not.mp hf)

/-- A frame of the user is queued or refused. -/
theorem write_wp (hJ : Lasting J) (hd : DelegateKeeps (fun _ => True) d) (h : Inv w) (hj : J w)
    (ho : w.owner f = .user) :
    wp (fun _ => True) (Stream.write env d f) (fun _ w' => (Inv w' ∧ J w') ∧ Later w w') w := by
  rw [Stream.write, wp_bind, wp_getSocket, wp_ite]
  refine ⟨fun _ => ⟨⟨h, hj⟩, refl_of Later w⟩, fun hop => ?_⟩
  have hop : w.socket.writeOpen = true := by simpa using hop
  obtain ⟨q, h⟩ := h
  have h₁ : Inv (queued w f) := ⟨_, h.enqueue hop ho⟩
  have l₁ : Later w (queued w f) :=
    ⟨fun hc => by simp [hop] at hc, fun hc => by simp [hop] at hc, failed_record⟩
  have hsettle : ∀ {m : StreamM π Unit}, Settles m →
      wp (fun _ => True) m (fun _ w' => (Inv w' ∧ J w') ∧ Later w w') (queued w f) := by
    intro m hm
    refine wp_mono (hm _ h₁) ?_
    rintro _ w' ⟨⟨h', hw⟩, l'⟩
    exact ⟨⟨h', hJ.of_waits w' hw⟩, trans_of Later l₁ l'⟩
  rw [wp_bind, wp_enqueueFrame, wp_ite]
  refine ⟨fun _ => ?_, fun _ => ?_⟩
  · rw [wp_bind, wp_when]
    refine ⟨fun _ => hsettle (settles_modifySocket (beside_writeSetEvent _)
      fun w => waits_writeSetEvent w _), fun hc => ⟨⟨h₁, hJ.of_waits _ ?_⟩, l₁⟩⟩
    exact fun _ _ hc' => absurd hc' hc
  · rw [wp_bind]
    exact hsettle (settles_writeReal hd)

theorem keeps_cntlWriteShutdown (hJ : Lasting J) (hd : DelegateKeeps (fun _ => True) d) :
    Keeps J (cntlWriteShutdown env d) := by
  refine preserves_getSocket_bind fun w hw => ?_
  refine Preserves.ite _ (fun _ => preserves_pure _) (fun _ => Preserves.ite _
    (fun _ => preserves_pure _) fun _ => ?_) w hw
  rintro w ⟨h, hj⟩
  rw [wp_bind]
  refine wp_mono (poolBorrow_wp hJ env.toContext _ _ _ h hj) ?_
  rintro r w₁ ⟨⟨⟨h₁, hj₁⟩, l₁⟩, hr⟩
  cases r with
  | none => exact ⟨⟨h₁, hj₁⟩, l₁⟩
  | some f =>
    obtain ⟨⟨h₂, hj₂⟩, l₂⟩ := keeps_record hJ (.obtained f) w₁ ⟨h₁, hj₁⟩
    rw [wp_bind, wp_record]
    refine wp_mono (write_wp hJ hd h₂ hj₂ (hr f rfl)) fun _ w₃ h₃ => ⟨h₃.1, ?_⟩
    exact trans_of Later l₁ (trans_of Later l₂ h₃.2)

theorem keeps_cntlCode (hJ : Lasting J) (hd : DelegateKeeps (fun _ => True) d) {c : Cntl}
    (hc : c ≠ .WRITE_STOP ∧ c ≠ .ABORT) : Keeps J (cntlCode env d c) := by
  cases c with
  | READ_START =>
    exact (keeps_modifySocket hJ (fun s => (beside_readSetEvent _ s).1)
      fun s => (beside_readSetEvent _ s).2).bind fun _ => preserves_pure _
  | READ_STOP =>
    exact (keeps_modifySocket hJ (fun s => (beside_readUnsetEvent _ s).1)
      fun s => (beside_readUnsetEvent _ s).2).bind fun _ => preserves_pure _
  | READ_PAUSE => exact keeps_cntlReadPause hJ true
  | READ_RESUME => exact keeps_cntlReadPause hJ false
  | WRITE_START =>
    exact (keeps_modifySocket hJ (beside_writeSetEvent _) aside_writeSetEvent).bind fun _ =>
      preserves_pure _
  | WRITE_STOP => exact absurd rfl hc.1
  | WRITE_SHUTDOWN => exact keeps_cntlWriteShutdown hJ hd
  | ABORT => exact absurd rfl hc.2

/-- The read frame leaves the socket. -/
theorem Holds.detach (h : Holds w q) (hf : w.socket.readFrame = some f) :
    Holds (w.setSocket { w.socket with readFrame := none }) q ∧
      Lets f (w.setSocket { w.socket with readFrame := none }) := by
  have h₁ : Holds (w.setSocket { w.socket with readFrame := none }) q :=
    h.setSocket ⟨⟨rfl, rfl, id, fun _ => by simp⟩, rfl⟩
  exact ⟨h₁, q, h₁, h.not_mem (by simp [h.reader f hf]), by simp⟩

/-- The condition does not depend on the read frame. -/
theorem Lasting.readFrame (hJ : Lasting J) (hj : J w) (r : Option FrameId) :
    J (w.setSocket { w.socket with readFrame := r }) ∧
      Later w (w.setSocket { w.socket with readFrame := r }) :=
  ⟨hJ.aside w _ ⟨rfl, rfl, id, id⟩ id hj, id, fun _ => id, id⟩

theorem keeps_uplinkPartial (hJ : Lasting J) (hd : DelegateKeeps J d) :
    Keeps J (uplinkPartial env d) := by
  refine preserves_getSocket_bind ?_
  rintro w ⟨⟨q, h⟩, hj⟩
  cases hf : w.socket.readFrame with
  | none => exact ⟨⟨⟨q, h⟩, hj⟩, refl_of Later w⟩
  | some f =>
    dsimp only
    rw [wp_bind, wp_getFrame, wp_when]
    refine ⟨fun _ => ?_, fun _ => ⟨⟨⟨q, h⟩, hj⟩, refl_of Later w⟩⟩
    obtain ⟨hj₁, l₁⟩ := hJ.readFrame hj none
    rw [wp_bind, wp_modifySocket]
    exact wp_mono (deliverOrRelease_wp hJ hd true (h.detach hf).2 hj₁) fun _ _ h' =>
      ⟨h'.1, trans_of Later l₁ h'.2⟩

/-- The end-of-stream frame is not the socket's any more. -/
theorem endOfStreamFrame_wp (hJ : Lasting J) (h : Inv w) (hj : J w) :
    wp (fun _ => True) (endOfStreamFrame env) (fun r w' => ((Inv w' ∧ J w') ∧ Later w w') ∧
      ∀ f, r = some f → Lets f w') w := by
  have hborrow : wp (fun _ => True) (poolBorrow env.toContext .endOfStream "stream.c" 583)
      (fun r w' => ((Inv w' ∧ J w') ∧ Later w w') ∧ ∀ f, r = some f → Lets f w') w :=
    wp_mono (poolBorrow_wp hJ env.toContext _ _ _ h hj) fun r w' h' =>
      ⟨h'.1, fun f hf => lets_of_user h'.1.1.1 (h'.2 f hf)⟩
  rw [endOfStreamFrame, wp_bind, wp_getSocket]
  cases hf : w.socket.readFrame with
  | none => exact hborrow
  | some f =>
    obtain ⟨q, h⟩ := h
    dsimp only
    rw [wp_bind, wp_getFrame, wp_ite]
    refine ⟨fun _ => ?_, fun _ => hborrow⟩
    have l₁ := (hJ.readFrame hj none).2
    rw [wp_bind, wp_modifySocket, wp_bind, wp_setFrame, wp_pure]
    have h₁ := (h.detach hf).1.setFrame (f := f)
      (x := { (w.heap f).formatEmpty with type := .endOfStream }) (by simp [h.reader f hf])
    refine ⟨⟨⟨⟨q, h₁⟩, hJ.aside w _ ⟨rfl, rfl, id, id⟩ id hj⟩, l₁.setFrame⟩, fun g hg => ?_⟩
    obtain rfl := Option.some.inj hg
    exact ⟨q, h₁, h.not_mem (by simp [h.reader f hf]), by simp⟩

theorem keeps_readShutdownNow (hJ : Lasting J) (hd : DelegateKeeps J d) :
    Keeps J (readShutdownNow env d) := by
  have hshut : ∀ s : Stream, Beside s { s with readShutdown := true } ∧
      Aside s { s with readShutdown := true } :=
    fun _ => ⟨⟨⟨rfl, rfl, id, fun _ => id⟩, rfl⟩, rfl, rfl, id, id⟩
  refine ((keeps_modifySocket hJ (fun s => (beside_readUnsetEvent _ s).1)
    fun s => (beside_readUnsetEvent _ s).2).bind fun _ => preserves_pure _).bind fun _ =>
    (keeps_modifySocket hJ (fun s => (hshut s).1) fun s => (hshut s).2).bind fun _ =>
      (keeps_uplinkPartial hJ hd).bind fun _ => ?_
  rintro w ⟨h, hj⟩
  rw [wp_bind]
  refine wp_mono (endOfStreamFrame_wp hJ h hj) ?_
  rintro r w₁ ⟨⟨⟨⟨q, h₁⟩, hj₁⟩, l₁⟩, hr⟩
  rw [wp_bind, wp_record]
  have hj₂ : J (w₁.record (.readEnd r)) := hJ.aside w₁ _ (.refl _) failed_record hj₁
  have l₂ : Later w (w₁.record (.readEnd r)) :=
    ⟨l₁.closed, l₁.empty, fun hf => failed_record (l₁.failed hf)⟩
  cases r with
  | none =>
    refine wp_mono (keeps_pauseNoframes hJ _ ⟨⟨q, h₁.record _⟩, hj₂⟩) fun _ w₃ h₃ => ?_
    exact ⟨h₃.1, trans_of Later l₂ h₃.2⟩
  | some f =>
    obtain ⟨q', h₁', hf, hrf⟩ := hr f rfl
    refine wp_mono (deliverOrRelease_wp hJ hd false ⟨q', h₁'.record _, hf, hrf⟩ hj₂) ?_
    exact fun _ w₃ h₃ => ⟨h₃.1, trans_of Later l₂ h₃.2⟩

/-- The read frame is the current one or one that is taken now. -/
theorem takeReadFrame_wp (hJ : Lasting J) (hd : DelegateKeeps J d) (h : Inv w) (hj : J w) :
    wp (fun _ => True) (takeReadFrame env d) (fun r w' => ((Inv w' ∧ J w') ∧ Later w w') ∧
      ∀ f, r = some f → w'.socket.readFrame = some f) w := by
  have hfetch : wp (fun _ => True) (fetchReadFrame env d) (fun r w' =>
      ((Inv w' ∧ J w') ∧ Later w w') ∧ ∀ f, r = some f → w'.owner f = .user) w := by
    rw [fetchReadFrame]
    cases hg : d.getReadFrame with
    | some g => exact wp_and (hd.preserves.getReadFrame g hg w ⟨h, hj⟩) (hd.fetch g hg w)
    | none =>
      dsimp only
      rw [wp_bind]
      refine wp_mono (poolBorrow_wp hJ env.toContext _ _ _ h hj) ?_
      rintro r w₁ ⟨⟨⟨⟨q, h₁⟩, hj₁⟩, l₁⟩, hr⟩
      cases r with
      | none => exact ⟨⟨⟨⟨q, h₁⟩, hj₁⟩, l₁⟩, by simp⟩
      | some f =>
        have ho := hr f rfl
        dsimp only
        rw [wp_bind, wp_getFrame, wp_bind]
        cases (w₁.heap f).formatSimple with
        | error e => trivial
        | ok x =>
          rw [wp_liftM_ok, wp_bind, wp_setFrame, wp_pure]
          have h₂ := h₁.setFrame (f := f) (x := x) (by simp [ho])
          exact ⟨⟨⟨⟨q, h₂⟩, hJ.aside w₁ _ (.refl _) id hj₁⟩, l₁.setFrame⟩, hr⟩
  rw [takeReadFrame, wp_bind, wp_getSocket, wp_ite]
  refine ⟨fun _ => ⟨⟨⟨h, hj⟩, refl_of Later w⟩, fun f hf => hf⟩, fun _ => ?_⟩
  rw [wp_bind]
  refine wp_mono hfetch ?_
  rintro r w₁ ⟨⟨⟨⟨q, h₁⟩, hj₁⟩, l₁⟩, hr⟩
  cases r with
  | none =>
    rw [wp_bind]
    refine wp_mono (keeps_pauseNoframes hJ _ ⟨⟨q, h₁⟩, hj₁⟩) fun _ w₂ h₂ => ⟨⟨h₂.1, ?_⟩, by simp⟩
    exact trans_of Later l₁ h₂.2
  | some f =>
    have h₂ := (h₁.record (.obtained f)).attach (f := f) (by simp [hr f rfl])
    rw [wp_bind, wp_record, wp_bind, wp_setOwner, wp_bind, wp_modifySocket, wp_pure]
    refine ⟨⟨⟨⟨q, h₂⟩, ?_⟩, l₁.closed, l₁.empty, fun hf => failed_record (l₁.failed hf)⟩, ?_⟩
    · exact hJ.aside w₁ _ ⟨rfl, rfl, id, id⟩ failed_record hj₁
    · exact fun g hg => hg

/-- The read frame stays while bytes were received for it. -/
theorem receive_wp (hJ : Lasting J) (hd : DelegateKeeps J d)
    (hd' : DelegateKeeps (fun _ => True) d) (v : Vec) (size : ℕ) (h : Inv w) (hj : J w) :
    wp (fun _ => True) (receive env d v size) (fun r w' => ((Inv w' ∧ J w') ∧ Later w w') ∧
      (r ≠ none → w'.socket = w.socket)) w := by
  obtain ⟨q, h⟩ := h
  have hrec : ∀ bytes : List UInt8,
      (Inv (w.tick.record (.recv v size bytes)) ∧ J (w.tick.record (.recv v size bytes))) ∧
        Later w (w.tick.record (.recv v size bytes)) := fun bytes =>
    ⟨⟨⟨q, h.tick.record _⟩, hJ.aside w _ (.refl _) failed_record hj⟩, id, fun _ => id,
      failed_record⟩
  have hclose : ∀ {w₁ : World Stream π}, (Inv w₁ ∧ J w₁) ∧ Later w w₁ →
      wp (fun _ => True) (readShutdownNow env d >>= fun _ => pure none)
        (fun (r : Option (List UInt8)) w' => ((Inv w' ∧ J w') ∧ Later w w') ∧
          (r ≠ none → w'.socket = w.socket)) w₁ := by
    rintro w₁ ⟨h₁, l₁⟩
    rw [wp_bind]
    refine wp_mono (keeps_readShutdownNow hJ hd w₁ h₁) fun _ w' h' => ⟨⟨h'.1, ?_⟩, by simp⟩
    exact trans_of Later l₁ h'.2
  rw [receive, wp_bind, wp_getSocket, if_pos h.ssl, recvPlain, wp_bind, wp_getSocket, wp_bind,
    wp_ask]
  cases env.recv w.socket w.clock with
  | failed e =>
    have hfail : wp (fun _ => True) (do
        Stream.error env d (some e) 0
        readShutdownNow env d
        return none) (fun (r : Option (List UInt8)) w' => ((Inv w' ∧ J w') ∧ Later w w') ∧
          (r ≠ none → w'.socket = w.socket)) (w.tick.record (.recv v size [])) := by
      rw [wp_bind]
      refine wp_mono ((settles_error hd' (some e) 0).keeps hJ _ (hrec []).1) fun _ w₂ h₂ => ?_
      exact hclose ⟨h₂.1, trans_of Later (hrec []).2 h₂.2⟩
    cases e with
    | EAGAIN =>
      rw [wp_bind, wp_record, wp_bind]
      refine wp_mono (keeps_modifySocket hJ (fun s => (beside_readSetEvent {READ_WANT_READ} s).1)
        (fun s => (beside_readSetEvent _ s).2) _ (hrec []).1) fun _ w₂ h₂ => ⟨⟨h₂.1, ?_⟩, by simp⟩
      exact trans_of Later (hrec []).2 h₂.2
    | _ => exact hfail
  | data bytes =>
    have hclear : ∀ s : Stream, Beside s { s with sysErrno := none, sslError := 0 } ∧
        Aside s { s with sysErrno := none, sslError := 0 } :=
      fun _ => ⟨⟨⟨rfl, rfl, id, fun _ => id⟩, rfl⟩, rfl, rfl, id, id⟩
    dsimp only
    rw [wp_bind, wp_record, wp_ite]
    refine ⟨fun _ => ?_, fun _ => ⟨hrec _, fun _ => rfl⟩⟩
    rw [wp_bind]
    refine wp_mono (keeps_modifySocket hJ (fun s => (hclear s).1) (fun s => (hclear s).2) _
      (hrec _).1) fun _ w₂ h₂ => ?_
    exact hclose ⟨h₂.1, trans_of Later (hrec _).2 h₂.2⟩

/-- The read frame is given away, or taken again. -/
theorem uplinkWith_wp (hJ : Lasting J) (hd : DelegateKeeps J d) (h : Inv w) (hj : J w)
    (hf : w.socket.readFrame = some f) {m : StreamM π Unit}
    (hm : ∀ w, w.owner f = .user → wp (fun _ => True) m (fun _ w' =>
      w' = (w.setOwner f .reader).setSocket { w.socket with readFrame := some f }) w) :
    wp (fun _ => True) (do
      modifySocket fun s => { s with readFrame := none }
      if ← deliver d f false then return ()
      else m) (fun _ w' => (Inv w' ∧ J w') ∧ Later w w') w := by
  obtain ⟨q, h⟩ := h
  obtain ⟨hj₁, l₁⟩ := hJ.readFrame hj none
  rw [wp_bind, wp_modifySocket, wp_bind]
  refine wp_mono (deliver_wp hJ hd false (h.detach hf).2 hj₁) ?_
  rintro taken w₂ ⟨⟨⟨⟨q, h₂⟩, hj₂⟩, l₂⟩, ho⟩
  have l₂ : Later w w₂ := trans_of Later l₁ l₂
  rw [wp_ite]
  refine ⟨fun _ => ⟨⟨⟨q, h₂⟩, hj₂⟩, l₂⟩, fun ht => ?_⟩
  have ho : w₂.owner f = .user := ho (by simpa using ht)
  refine wp_mono (hm w₂ ho) fun _ w₃ he => ?_
  subst he
  refine ⟨⟨⟨q, h₂.attach (by simp [ho])⟩, ?_⟩, l₂.closed, l₂.empty, l₂.failed⟩
  exact hJ.aside w₂ _ ⟨rfl, rfl, id, id⟩ id hj₂

theorem uplink_wp (hJ : Lasting J) (hd : DelegateKeeps J d) (h : Inv w) (hj : J w)
    (hf : w.socket.readFrame = some f) :
    wp (fun _ => True) (uplink d f) (fun _ w' => (Inv w' ∧ J w') ∧ Later w w') w :=
  uplinkWith_wp hJ hd h hj hf fun _ _ => rfl

theorem uplinkAlone_wp (hJ : Lasting J) (hd : DelegateKeeps J d) (h : Inv w) (hj : J w)
    (hf : w.socket.readFrame = some f) :
    wp (fun _ => True) (uplinkAlone d f) (fun _ w' => (Inv w' ∧ J w') ∧ Later w w') w :=
  uplinkWith_wp hJ hd h hj hf fun w _ => by
    rw [wp_bind, wp_getSocket, wp_ite]
    exact ⟨fun _ => trivial, fun _ => rfl⟩

theorem vecAdvanced_wp (hJ : Lasting J) (hd : DelegateKeeps J d) (filled : Bool) (h : Inv w)
    (hj : J w) (hf : w.socket.readFrame = some f) :
    wp (fun _ => True) (vecAdvanced d f filled) (fun _ w' => (Inv w' ∧ J w') ∧ Later w w') w := by
  have hset : Keeps J (modifySocket (π := π) (readSetEvent {READ_WANT_READ})) :=
    keeps_modifySocket hJ (fun s => (beside_readSetEvent _ s).1) fun s =>
      (beside_readSetEvent _ s).2
  rw [vecAdvanced, wp_bind, wp_getSocket, wp_ite]
  refine ⟨fun _ => ?_, fun _ => ?_⟩
  · rw [wp_bind, wp_when]
    refine ⟨fun _ => ?_, fun _ => (hset.bind fun _ => preserves_pure _) w ⟨h, hj⟩⟩
    refine wp_mono (uplinkAlone_wp hJ hd h hj hf) ?_
    rintro _ w₁ ⟨h₁, l₁⟩
    refine wp_mono ((hset.bind fun _ => preserves_pure _) w₁ h₁) fun _ w₂ h₂ => ⟨h₂.1, ?_⟩
    exact trans_of Later l₁ h₂.2
  · obtain ⟨q, h⟩ := h
    rw [wp_bind, wp_getFrame, wp_bind]
    cases (w.heap f).nextVec with
    | error e => trivial
    | ok r =>
      obtain ⟨more, x⟩ := r
      have h₁ := h.setFrame (f := f) (x := x) (by simp [h.reader f hf])
      have hj₁ : J (w.setFrame f x) := hJ.aside w _ (.refl _) id hj
      have l₁ : Later w (w.setFrame f x) := (refl_of Later w).setFrame
      have hup : wp (fun _ => True) (do
          uplink d f
          let s ← getSocket
          return decide (READ_WANT_READ ∈ s.readEvents))
          (fun _ w' => (Inv w' ∧ J w') ∧ Later w w') (w.setFrame f x) := by
        rw [wp_bind]
        refine wp_mono (uplink_wp hJ hd ⟨q, h₁⟩ hj₁ hf) fun _ w₂ h₂ => ⟨h₂.1, ?_⟩
        exact trans_of Later l₁ h₂.2
      rw [wp_liftM_ok, wp_bind, wp_setFrame, wp_ite, wp_ite]
      exact ⟨fun _ => hup, fun _ => ⟨fun _ => hup, fun _ => ⟨⟨⟨q, h₁⟩, hj₁⟩, l₁⟩⟩⟩

theorem readVec_wp (hJ : Lasting J) (hd : DelegateKeeps J d)
    (hd' : DelegateKeeps (fun _ => True) d) (h : Inv w) (hj : J w)
    (hf : w.socket.readFrame = some f) :
    wp (fun _ => True) (readVec env d f) (fun _ w' => (Inv w' ∧ J w') ∧ Later w w') w := by
  rw [readVec, wp_bind, wp_getFrame, wp_bind]
  cases (w.heap f).getVec with
  | error e => trivial
  | ok v =>
    rw [wp_liftM_ok]
    cases v with
    | none => trivial
    | some v =>
      dsimp only
      rw [wp_ite]
      refine ⟨fun _ => trivial, fun _ => ?_⟩
      rw [wp_bind]
      refine wp_mono (receive_wp hJ hd hd' v _ h hj) ?_
      rintro r w₁ ⟨⟨⟨⟨q, h₁⟩, hj₁⟩, l₁⟩, hs⟩
      cases r with
      | none => exact ⟨⟨⟨q, h₁⟩, hj₁⟩, l₁⟩
      | some bytes =>
        have hf₁ : w₁.socket.readFrame = some f := by rw [hs (by simp), hf]
        dsimp only
        rw [wp_bind]
        cases ((w.heap f).write (v.offset + v.position) bytes).advanceVec v bytes.length with
        | error e => trivial
        | ok x =>
          have h₂ := h₁.setFrame (f := f) (x := x) (by simp [h₁.reader f hf₁])
          have hj₂ : J (w₁.setFrame f x) := hJ.aside w₁ _ (.refl _) id hj₁
          rw [wp_liftM_ok, wp_bind, wp_setFrame]
          refine wp_mono (vecAdvanced_wp hJ hd _ ⟨q, h₂⟩ hj₂ hf₁) fun _ w₃ h₃ => ⟨h₃.1, ?_⟩
          exact trans_of Later l₁.setFrame h₃.2

theorem keeps_readLoop (hJ : Lasting J) (hd : DelegateKeeps J d)
    (hd' : DelegateKeeps (fun _ => True) d) (n : ℕ) : Keeps J (readLoop env d n) := by
  induction n with
  | zero =>
    exact keeps_modifySocket hJ (fun s => (beside_readSetEvent _ s).1)
      fun s => (beside_readSetEvent _ s).2
  | succ n ih =>
    rintro w ⟨h, hj⟩
    rw [readLoop, wp_bind]
    refine wp_mono (takeReadFrame_wp hJ hd h hj) ?_
    rintro r w₁ ⟨⟨⟨h₁, hj₁⟩, l₁⟩, hr⟩
    cases r with
    | none => exact ⟨⟨h₁, hj₁⟩, l₁⟩
    | some f =>
      dsimp only
      rw [wp_bind]
      refine wp_mono (readVec_wp hJ hd hd' h₁ hj₁ (hr f rfl)) ?_
      rintro more w₂ ⟨h₂, l₂⟩
      have l₂ : Later w w₂ := trans_of Later l₁ l₂
      rw [wp_ite]
      refine ⟨fun _ => wp_mono (ih w₂ h₂) fun _ w₃ h₃ => ⟨h₃.1, ?_⟩, fun _ => ⟨h₂, l₂⟩⟩
      exact trans_of Later l₂ h₃.2

theorem keeps_onReadEvent (hJ : Lasting J) (hd : DelegateKeeps J d)
    (hd' : DelegateKeeps (fun _ => True) d) : Keeps J (onReadEvent env d) :=
  preserves_getSocket_bind fun w hw => Preserves.ite _ (fun _ => Hoare.preserves_throw trivial)
    (fun _ => keeps_readLoop hJ hd hd' _) w hw

/-- The delegate is told that the stream is connected, and the stream writes. -/
theorem connected_wp (hJ : Lasting J) (hd : DelegateKeeps J d)
    (hd' : DelegateKeeps (fun _ => True) d) {s : Stream} (h : Inv w) (hs : Beside w.socket s)
    (hw : WRITE_WANT_WRITE ∈ s.writeEvents ∧ s.writeWatcher = true) :
    wp (fun _ => True) (do
      FrameTransporter.record .connected
      d.connected
      onWriteEvent env d) (fun _ w' => (Inv w' ∧ J w') ∧ Later w w') (w.setSocket s) := by
  obtain ⟨q, h⟩ := h
  have h₁ := (h.setSocket hs).record .connected
  have hj₁ : J ((w.setSocket s).record .connected) := hJ.of_waits _ fun _ _ _ => hw
  have l₁ : Later w ((w.setSocket s).record .connected) :=
    ⟨hs.writeOpen, fun _ hf => hs.writeFrames.trans hf, fun hf => failed_record hf⟩
  rw [wp_bind, wp_record, wp_bind]
  refine wp_mono (hd.preserves.connected _ ⟨⟨q, h₁⟩, hj₁⟩) ?_
  rintro _ w₂ ⟨h₂, l₂⟩
  refine wp_mono (settles_onWriteEvent hd' w₂ h₂.1) ?_
  rintro _ w₃ ⟨⟨h₃, hw₃⟩, l₃⟩
  exact ⟨⟨h₃, hJ.of_waits w₃ hw₃⟩, trans_of Later l₁ (trans_of Later l₂ l₃)⟩

theorem keeps_onConnectEvent (hJ : Lasting J) (hd : DelegateKeeps J d)
    (hd' : DelegateKeeps (fun _ => True) d) : Keeps J (onConnectEvent env d) := by
  rintro w ⟨⟨q, h⟩, hj⟩
  obtain ⟨h₁, l₁⟩ := keeps_ask hJ (fun _ => ()) w ⟨⟨q, h⟩, hj⟩
  rw [onConnectEvent, wp_bind, wp_getSocket, wp_ite]
  refine ⟨fun _ => trivial, fun _ => ?_⟩
  rw [wp_bind, wp_ask]
  cases env.soError w.clock with
  | unknown => exact ⟨h₁, l₁⟩
  | error e =>
    refine wp_mono ((settles_error hd' (some e) 0).keeps hJ _ h₁) fun _ w' h' => ⟨h'.1, ?_⟩
    exact trans_of Later l₁ h'.2
  | none =>
    have hs : Beside w.socket { started (writeUnsetEvent {CONNECT_WANT_WRITE} w.socket) with
        connecting := false } := by
      rw [started, writeUnsetEvent_eq, readSetEvent_eq, writeSetEvent_eq]
      exact ⟨⟨rfl, rfl, id, fun _ => id⟩, rfl⟩
    dsimp only
    rw [wp_bind, wp_modifySocket, if_neg (by simp [h.ssl]), wp_bind, wp_cntlStart, wp_bind,
      wp_modifySocket]
    refine wp_mono (connected_wp (w := w.tick) hJ hd hd' h₁.1 hs (wanted_writeSetEvent _))
      fun _ w' h' => ?_
    exact ⟨h'.1, trans_of Later l₁ h'.2⟩

theorem keeps_onWriteReady (hJ : Lasting J) (hd' : DelegateKeeps (fun _ => True) d) :
    Keeps J (onWriteReady env d) := by
  refine preserves_getSocket_bind fun w hw => ((Preserves.when _ fun _ =>
    (settles_onWriteEvent hd').keeps hJ).bind fun _ => preserves_getSocket_bind fun w hw => ?_) w hw
  obtain ⟨q, h⟩ := hw.1
  rw [wp_when]
  exact ⟨fun hs => by simp [h.ssl] at hs, fun _ => ⟨hw, refl_of Later w⟩⟩

theorem keeps_onWrite (hJ : Lasting J) (hd : DelegateKeeps J d)
    (hd' : DelegateKeeps (fun _ => True) d) : Keeps J (onWrite env d) :=
  preserves_getSocket_bind fun w hw => ((Preserves.when _ fun _ =>
    keeps_onConnectEvent hJ hd hd').bind fun _ => keeps_onWriteReady hJ hd') w hw

theorem keeps_onRead (hJ : Lasting J) (hd : DelegateKeeps J d)
    (hd' : DelegateKeeps (fun _ => True) d) : Keeps J (onRead env d) := by
  refine preserves_getSocket_bind fun w hw => Preserves.ite _ (fun _ => ?_) (fun _ =>
    (Preserves.when _ fun _ => keeps_onReadEvent hJ hd hd').bind fun _ =>
      preserves_getSocket_bind fun w hw => ?_) w hw
  · refine keeps_modifySocket hJ (fun s => ?_) fun s => ?_
    · exact ⟨⟨rfl, rfl, id, fun _ => id⟩, rfl⟩
    · exact ⟨rfl, rfl, id, id⟩
  · obtain ⟨q, h⟩ := hw.1
    rw [wp_when]
    exact ⟨fun hs => by simp [h.ssl] at hs, fun _ => ⟨hw, refl_of Later w⟩⟩

end Functions

section Runs

/-- Runs of a plain stream in which writing is neither stopped nor aborted. -/
def WriteRun (_ : World Stream π) : Event → Prop
  | .call (.cntl codes) => Cntl.WRITE_STOP ∉ codes ∧ Cntl.ABORT ∉ codes
  | .call (.enableSsl _) => False
  | _ => True

instance (w : World Stream π) : (e : Event) → Decidable (WriteRun w e)
  | .call (.cntl codes) =>
    inferInstanceAs (Decidable (Cntl.WRITE_STOP ∉ codes ∧ Cntl.ABORT ∉ codes))
  | .call (.enableSsl _) => inferInstanceAs (Decidable False)
  | .call (.write _) | .call (.setPartial _) | .call (.borrow _) | .call (.frameReturn _)
  | .call (.fill ..) | .read | .write | .error => inferInstanceAs (Decidable True)

variable (env : Env) {d : Delegate π} {J : World Stream π → Prop}

theorem keeps_call (hJ : Lasting J) (hd : DelegateKeeps (fun _ => True) d) (c : Call) :
    Keeps J (c.exec env d WriteRun) := by
  refine preserves_get_bind fun w hw => ?_
  rw [wp_when]
  refine ⟨?_, fun _ => ⟨hw, refl_of Later w⟩⟩
  rintro ⟨hperm, hrun⟩
  cases c with
  | write f =>
    rw [Call.perform, wp_bind]
    exact wp_mono (write_wp hJ hd hw.1 hw.2 hperm) fun _ _ h => h
  | cntl codes =>
    refine ((cntlCodes_preserves fun c hc => ?_).bind fun _ => preserves_pure _) w hw
    have hc : c ∈ codes := by simpa using (List.mem_filter.mp hc).2
    exact keeps_cntlCode hJ hd ⟨fun he => hrun.1 (he ▸ hc), fun he => hrun.2 (he ▸ hc)⟩
  | enableSsl r => exact hrun.elim
  | setPartial b =>
    rw [Call.perform]
    refine keeps_modifySocket hJ (fun s => ?_) (fun s => ?_) w hw
    · exact ⟨⟨rfl, rfl, id, fun _ => id⟩, rfl⟩
    · exact ⟨rfl, rfl, id, id⟩
  | borrow type =>
    rw [Call.perform, wp_bind]
    exact wp_mono (poolBorrow_wp hJ env.toContext _ _ _ hw.1 hw.2) fun _ _ h => h.1
  | frameReturn f => exact frameReturn_wp hJ env.toContext hw.1 hw.2 hperm
  | fill f type vecs vecPosition data =>
    obtain ⟨⟨q, h⟩, hj⟩ := hw
    have hperm : w.owner f = .user ∧ type ≠ .free := hperm
    rw [Call.perform, wp_bind, wp_getFrame, wp_setFrame]
    exact ⟨⟨⟨q, h.setFrame (by simp [hperm.1])⟩, hJ.aside w _ (.refl _) id hj⟩,
      (refl_of Later w).setFrame⟩

theorem delegateKeeps_of (hJ : Lasting J) (script : Script) {calls : List Call → StreamM π Unit}
    (hcalls : ∀ cs, Keeps J (calls cs)) : DelegateKeeps J (script.delegate calls) := by
  refine ⟨script.answersOwn calls, ?_⟩
  refine Script.delegate_preserves (fun w hw => keeps_ask hJ (fun _ => ()) w hw) ?_ hcalls
  rintro w f data vecs vecPosition ⟨⟨q, h⟩, hj⟩ ho
  exact ⟨⟨⟨q, h.setFrame (by simp [ho])⟩, hJ.aside w _ (.refl _) id hj⟩,
    (refl_of Later w).setFrame⟩

/-- The callbacks of a scripted delegate keep what every call keeps. -/
theorem scripted_keeps (hJ : Lasting J) (script : Script) (n : ℕ) :
    DelegateKeeps J (scripted (π := π) env WriteRun script n) := by
  have htrue : ∀ m, DelegateKeeps (fun _ => True) (scripted (π := π) env WriteRun script m) := by
    intro m
    induction m with
    | zero => exact delegateKeeps_of lasting_true script fun _ => preserves_pure _
    | succ m ih =>
      exact delegateKeeps_of lasting_true script fun _ =>
        preserves_forM fun c _ => keeps_call env lasting_true ih c
  cases n with
  | zero => exact delegateKeeps_of hJ script fun _ => preserves_pure _
  | succ n =>
    exact delegateKeeps_of hJ script fun _ => preserves_forM fun c _ =>
      keeps_call env hJ (htrue n) c

theorem event_waits (hd : DelegateKeeps Waits d) (hd' : DelegateKeeps (fun _ => True) d)
    (e : Event) : Keeps Waits (e.exec env d WriteRun) := by
  cases e with
  | call c => exact keeps_call env lasting_waits hd' c
  | read =>
    exact preserves_get_bind fun w hw => Preserves.when _
      (fun _ => keeps_onRead lasting_waits hd hd') w hw
  | write =>
    exact preserves_get_bind fun w hw => Preserves.when _
      (fun _ => keeps_onWrite lasting_waits hd hd') w hw
  | error =>
    refine preserves_get_bind fun w hw => ?_
    rw [wp_when]
    refine ⟨fun _ => ?_, fun _ => ⟨hw, refl_of Later w⟩⟩
    obtain ⟨⟨q, h⟩, -⟩ := hw
    have hs : Beside w.socket (stopped w.socket) := ⟨⟨rfl, rfl, id, fun _ => id⟩, rfl⟩
    rw [wp_bind, wp_modifySocket, onError]
    refine wp_mono (settles_error hd' (some .ECONNRESET) 0 _ ⟨q, h.setSocket hs⟩) fun _ w' h' => ?_
    exact ⟨h'.1, trans_of Later (later_of_beside hs) h'.2⟩

/-- In every run of a plain stream in which writing is neither stopped nor aborted, a connected
stream with frames to write waits for a write event, unless it has failed. -/
theorem run_wakes (script : Script) (n : ℕ) (o : Opening) (proto : π)
    (data : FrameId → ℕ → UInt8) (events : List Event) :
    wp (fun _ => True) (run env (scripted env WriteRun script n) WriteRun events)
      (fun _ => Waits) (World.init (opened o) proto data) := by
  have hd := scripted_keeps (π := π) env lasting_waits script n
  have hd' := scripted_keeps (π := π) env lasting_true script n
  refine wp_mono (preserves_forM (fun e _ => event_waits env hd hd' e) _ ?_) fun _ _ h => h.1.2
  refine ⟨⟨[], holds_init o proto data⟩, waits_of_empty ?_⟩
  exact (holds_init o proto data).chain

end Runs

end Stream.WakeUp

end FrameTransporter
