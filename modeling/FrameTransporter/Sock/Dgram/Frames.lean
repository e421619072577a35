import FrameTransporter.Mempool.Ownership
import FrameTransporter.Sock.Dgram.Run

/-! # The frames that a datagram socket holds

A datagram socket owns its read frame and the frames of its write queue, and no
others. Every frame that it accepts stays in the queue until it is returned to
the pool. The invariant says so for each state between two operations, and the
delegate keeps it in its callbacks.
-/

namespace FrameTransporter

open Hoare Intrusive

theorem Frame.SameHeader.withoutControl (x : Frame) : x.SameHeader x.withoutControl := by
  unfold Frame.withoutControl
  split <;> exact ⟨rfl, rfl, rfl, rfl⟩

/-- The state after `ft_frame_return` of a frame in use. -/
def World.returned {σ π : Type} (w : World σ π) (ctx : Context) (f : FrameId) : World σ π :=
  ((w.tick.setFrame f { w.heap f with
    type := .free, next := ctx.availableFrames w.clock, lastSeenByFile := none,
    lastSeenByLine := 0 }).setOwner f .pool).record (.frameReturn f)

theorem wp_frameReturn {σ π : Type} {E : Fault → Prop} {w : World σ π} {ctx : Context}
    {f : FrameId} {Q : Unit → World σ π → Prop} (h : Pool.Live (w.heap f)) :
    wp E (frameReturn ctx f) Q w ↔ Q () (w.returned ctx f) := by
  obtain ⟨ht, hfile, hline⟩ := h
  simp only [frameReturn, wp_bind, wp_getFrame, if_neg ht, if_neg hfile, if_neg hline, wp_ask,
    wp_setFrame, wp_setOwner, wp_record]
  rfl

namespace Dgram

variable {π : Type}

/-- How often the write queue accepted a frame. -/
def accepts (f : FrameId) (t : List Io) : ℕ := t.countP fun
  | .accepted g _ _ => g = f
  | _ => false

/-- How often a frame of the write queue was returned to the pool. -/
def returns (f : FrameId) (t : List Io) : ℕ := t.countP fun
  | .release g side => g = f ∧ side = 'W'
  | _ => false

/-- The socket holds its read frame and the listed frames in its write queue. -/
structure Holds (w : World Dgram π) (q : List FrameId) : Prop where
  chain : Chain w.next w.socket.writeFrames q
  last : w.socket.writeOpen = true → w.socket.writeFrameLast = Link.last q
  writer : ∀ f, w.owner f = .writer ↔ f ∈ q
  reader : ∀ f, w.owner f = .reader ↔ w.socket.readFrame = some f
  closed : ∀ f ∈ q, (w.heap f).type = .endOfStream →
    w.socket.writeOpen = false ∧ ∃ pre, q = pre ++ [f]
  live : ∀ f, w.owner f ≠ .pool → Pool.Live (w.heap f)
  count : ∀ f, accepts f w.trace = returns f w.trace + q.count f

def Inv (w : World Dgram π) : Prop := ∃ q, Holds w q

/-- What no call undoes: the write side stays closed and then empty, and only the read event takes
a read frame. -/
structure Later (s s' : Dgram) : Prop where
  closed : s.writeOpen = false → s'.writeOpen = false
  empty : s.writeOpen = false → s.writeFrames = none → s'.writeFrames = none
  free : s.readFrame = none → s'.readFrame = none

instance : IsPreorder Dgram Later where
  refl _ := ⟨id, fun _ => id, id⟩
  trans _ _ _ h h' := ⟨h'.closed ∘ h.closed, fun ho hf => h'.empty (h.closed ho) (h.empty ho hf),
    h'.free ∘ h.free⟩

section States

variable {w : World Dgram π} {q : List FrameId} {f : FrameId} {x : Frame} {s : Dgram}

theorem Holds.tick (h : Holds w q) : Holds w.tick q := { h with }

/-- An entry of the trace that the write queue has no part in. -/
def Silent (x : Io) : Prop := ∀ f, accepts f [x] = 0 ∧ returns f [x] = 0

theorem Holds.record {x : Io} (h : Holds w q) (hx : Silent x) : Holds (w.record x) q where
  __ := h
  count f := by
    have ha : accepts f (w.trace ++ [x]) = accepts f w.trace := by
      rw [accepts, List.countP_append]
      exact (congrArg _ (hx f).1).trans (Nat.add_zero _)
    have hr : returns f (w.trace ++ [x]) = returns f w.trace := by
      rw [returns, List.countP_append]
      exact (congrArg _ (hx f).2).trans (Nat.add_zero _)
    rw [World.record_trace, ha, hr]
    exact h.count f

/-- A frame may change; a queued one keeps its header. -/
theorem Holds.setFrame (h : Holds w q) (hx : w.owner f ≠ .pool → Pool.Live x)
    (hq : w.owner f = .writer → x.next = (w.heap f).next ∧ x.type = (w.heap f).type) :
    Holds (w.setFrame f x) q where
  __ := h
  chain := h.chain.congr fun g hg => by
    by_cases e : g = f
    · subst e
      simpa [World.next] using (hq ((h.writer g).mpr hg)).1.symm
    · simp [World.next, e]
  closed g hg ht := by
    refine h.closed g hg ?_
    by_cases e : g = f
    · subst e
      rw [← (hq ((h.writer g).mpr hg)).2]
      simpa using ht
    · simpa [e] using ht
  live g hg := by
    by_cases e : g = f
    · subst e
      simpa using hx hg
    · simpa [e] using h.live g hg

/-- Frames go to and fro between the pool and the users. -/
theorem Holds.setOwner {o : Owner} (h : Holds w q) (hf : w.owner f ≠ .writer ∧ w.owner f ≠ .reader)
    (ho : o ≠ .writer ∧ o ≠ .reader) (hl : o ≠ .pool → Pool.Live (w.heap f)) :
    Holds (w.setOwner f o) q where
  __ := h
  writer g := by
    by_cases e : g = f
    · subst e
      simp [ho.1, ← h.writer g, hf.1]
    · simpa [e] using h.writer g
  reader g := by
    by_cases e : g = f
    · subst e
      have hr := h.reader g
      simp [ho.2, ← hr, hf.2]
    · simpa [e] using h.reader g
  live g hg := by
    by_cases e : g = f
    · subst e
      exact hl (by simpa using hg)
    · exact h.live g (by simpa [e] using hg)

/-- A change of the socket beside its frames, which does not open it again. -/
structure Beside (s s' : Dgram) : Prop where
  writeFrames : s'.writeFrames = s.writeFrames
  writeFrameLast : s'.writeFrameLast = s.writeFrameLast
  writeOpen : s.writeOpen = false → s'.writeOpen = false
  readFrame : s'.readFrame = s.readFrame

theorem Holds.setSocket (h : Holds w q) (hs : Beside w.socket s) : Holds (w.setSocket s) q where
  __ := h
  chain := hs.writeFrames ▸ h.chain
  last ho := hs.writeFrameLast.trans (h.last (by
    by_contra hc
    simp [hs.writeOpen (Bool.not_eq_true _ ▸ hc)] at ho))
  reader := hs.readFrame ▸ h.reader
  closed f hf ht := ⟨hs.writeOpen (h.closed f hf ht).1, (h.closed f hf ht).2⟩

theorem Beside.later {s s' : Dgram} (hs : Beside s s') : Later s s' :=
  ⟨hs.writeOpen, fun _ hf => hs.writeFrames.trans hf, fun hr => hs.readFrame.trans hr⟩

/-- A frame that the socket let go of is returned to the pool. -/
theorem Holds.returned (ctx : Context) (h : Holds (w.setOwner f .user) q) :
    Holds (w.returned ctx f) q := by
  have h₁ := h.tick.setOwner (f := f) (o := .pool) (by simp) (by simp) (by simp)
  have h₂ := h₁.setFrame (f := f) (x := { w.heap f with
    type := .free, next := ctx.availableFrames w.clock, lastSeenByFile := none,
    lastSeenByLine := 0 }) (by simp) (by simp)
  have h₃ := h₂.record (x := .frameReturn f) fun _ => ⟨rfl, rfl⟩
  have he : ((w.setOwner f .user).tick.setOwner f .pool) = (w.setOwner f .pool).tick := by
    simp [World.setOwner, World.tick]
  rw [he] at h₃
  exact h₃

/-- The read frame is detached. -/
theorem Holds.detach (h : Holds w q) (hf : w.socket.readFrame = some f) :
    Holds ((w.setSocket { w.socket with readFrame := none }).setOwner f .user) q := by
  have hr : w.owner f = .reader := (h.reader f).mpr hf
  constructor
  case chain => exact h.chain
  case last => exact h.last
  case writer =>
    intro g
    by_cases e : g = f
    · subst e
      simp [← h.writer g, hr]
    · simpa [e] using h.writer g
  case reader =>
    intro g
    by_cases e : g = f
    · subst e
      simp
    · have hg := h.reader g
      rw [hf] at hg
      simpa [e, Ne.symm e] using hg
  case closed => exact h.closed
  case live =>
    intro g hg
    by_cases e : g = f
    · subst e
      exact h.live g (by simp [hr])
    · exact h.live g (by simpa [e] using hg)
  case count => exact h.count

/-- A frame of the user becomes the read frame. -/
theorem Holds.attach (h : Holds w q) (hf : w.owner f = .user) (hn : w.socket.readFrame = none) :
    Holds ((w.setOwner f .reader).setSocket { w.socket with readFrame := some f }) q := by
  constructor
  case chain => exact h.chain
  case last => exact h.last
  case writer =>
    intro g
    by_cases e : g = f
    · subst e
      simp [← h.writer g, hf]
    · simpa [e] using h.writer g
  case reader =>
    intro g
    by_cases e : g = f
    · subst e
      simp
    · have hg := h.reader g
      rw [hn] at hg
      simpa [e, Ne.symm e] using hg
  case closed => exact h.closed
  case live =>
    intro g hg
    by_cases e : g = f
    · subst e
      exact h.live g (by simp [hf])
    · exact h.live g (by simpa [e] using hg)
  case count => exact h.count

/-- The front frame leaves the queue, and its return to the pool is noted. The link to the end of
the queue matters only while the socket takes frames. -/
theorem Holds.dequeue (h : Holds w (f :: q)) (last : Link FrameId)
    (hl : w.socket.writeOpen = true →
      last = if (w.heap f).next = none then .head else w.socket.writeFrameLast) :
    Holds (((w.setSocket { w.socket with
      writeFrames := (w.heap f).next, writeFrameLast := last }).record
        (.release f 'W')).setOwner f .user) q := by
  obtain ⟨hfq, -⟩ := List.nodup_cons.mp h.chain.nodup
  have ho : w.owner f = .writer := (h.writer f).mpr (by simp)
  constructor
  case chain => exact (chain_cons.mp h.chain).2
  case last => exact fun hop => (hl hop).trans (Queue.mk h.chain (h.last hop)).dequeue.last_eq
  case writer =>
    intro g
    by_cases e : g = f
    · subst e
      simpa using hfq
    · simpa [e] using h.writer g
  case reader =>
    intro g
    by_cases e : g = f
    · subst e
      have hr := h.reader g
      simpa [ho] using hr
    · simpa [e] using h.reader g
  case closed =>
    intro g hg ht
    obtain ⟨hop, pre, hpre⟩ := h.closed g (List.mem_cons_of_mem _ hg) ht
    cases pre with
    | nil => exact absurd ((List.cons.inj hpre).2 ▸ hg) (by simp)
    | cons a pre => exact ⟨hop, pre, (List.cons.inj hpre).2⟩
  case live =>
    intro g hg
    by_cases e : g = f
    · subst e
      exact h.live g (by simp [ho])
    · exact h.live g (by simpa [e] using hg)
  case count =>
    intro g
    have hc := h.count g
    by_cases e : g = f
    · subst e
      simp [accepts, returns, List.countP_append] at hc ⊢
      omega
    · simpa [accepts, returns, List.countP_append, Ne.symm e, List.count_cons] using hc

/-- A frame of the user is added to the queue. -/
theorem Holds.enqueue (h : Holds w q) (hop : w.socket.writeOpen = true)
    (hf : w.owner f = .user) : Holds (queued w f) (q ++ [f]) := by
  have hfq : f ∉ q := fun hm => by simpa [hf] using (h.writer f).mpr hm
  have hheap : ∀ g, ((queued w f).heap g).type = (w.heap g).type ∧
      ((queued w f).heap g).lastSeenByFile = (w.heap g).lastSeenByFile ∧
      ((queued w f).heap g).lastSeenByLine = (w.heap g).lastSeenByLine :=
    fun _ => ⟨rfl, rfl, rfl⟩
  constructor
  case chain => exact (Queue.enqueue ⟨h.chain, h.last hop⟩ hfq).chain
  case last => exact fun _ => by simp [queued]
  case writer =>
    intro g
    by_cases e : g = f
    · subst e
      simp [queued]
    · simpa [queued, e] using h.writer g
  case reader =>
    intro g
    by_cases e : g = f
    · subst e
      have hr := h.reader g
      simpa [queued, hf] using hr
    · simpa [queued, e] using h.reader g
  case closed =>
    intro g hg ht
    rw [(hheap g).1] at ht
    rcases List.mem_append.mp hg with hg | hg
    · have hc := (h.closed g hg ht).1
      simp [hop] at hc
    · obtain rfl := List.mem_singleton.mp hg
      exact ⟨by simp [queued, ht], q, rfl⟩
  case live =>
    intro g hg
    have hl : Pool.Live (w.heap g) := by
      by_cases e : g = f
      · subst e
        exact h.live g (by simp [hf])
      · exact h.live g (by simpa [queued, e] using hg)
    rwa [Pool.Live, (hheap g).1, (hheap g).2.1, (hheap g).2.2]
  case count =>
    intro g
    have hc := h.count g
    by_cases e : g = f
    · subst e
      simp [queued, accepts, returns, List.countP_append] at hc ⊢
      omega
    · simpa [queued, accepts, returns, List.countP_append, Ne.symm e, List.count_append,
        List.count_cons] using hc

/-- Only frames of the queue are changed by the frame that is added to it. -/
theorem Holds.heap_queued (h : Holds w q) (hop : w.socket.writeOpen = true) {g : FrameId}
    (hg : w.owner g ≠ .writer) (hne : g ≠ f) : (queued w f).heap g = w.heap g := by
  have hnext : w.socket.writeFrameLast.store f w.next g = w.next g := by
    rw [h.last hop]
    rcases List.eq_nil_or_concat' q with rfl | ⟨q, l, rfl⟩
    · simp [Link.store, hne]
    · have hl : g ≠ l := by
        rintro rfl
        exact hg ((h.writer g).mpr (by simp))
      rw [Link.last_concat, Link.store, Function.update_of_ne hne, Function.update_of_ne hl]
  change { w.heap g with next := w.socket.writeFrameLast.store f w.next g } = w.heap g
  rw [hnext]
  rfl

theorem holds_init (proto : π) (data : FrameId → ℕ → UInt8) :
    Holds (World.init init proto data) [] where
  chain := rfl
  last _ := rfl
  writer f := by simp [World.init]
  reader f := by simp [World.init, init, writeSetEvent_eq]
  closed f hf := absurd hf (by simp)
  live f hf := absurd rfl hf
  count f := rfl

end States

section Delegate

variable {E : Fault → Prop} {I : World Dgram π → Prop}

/-- Frames that the delegate hands over or refuses are its own. -/
structure Delegate.Owns (E : Fault → Prop) (I : World Dgram π → Prop) (d : Delegate π) : Prop where
  fetch : ∀ g ∈ d.getReadFrame, ∀ w, I w →
    wp E g (fun r w' => ∀ f, r = some f → w'.owner f = .user) w
  refuse : ∀ g ∈ d.read, ∀ f w, I w →
    wp E (g f) (fun taken w' => taken = false → w'.owner f = .user) w

theorem Script.owns {script : Script} {calls : List Call → DgramM π Unit}
    (htick : ∀ w, I w → I w.tick)
    (hcalls : ∀ cs w, I w → wp E (calls cs) (fun _ _ => True) w) :
    (script.delegate calls).Owns E I where
  fetch g hg w hw := by
    obtain ⟨g, -, rfl⟩ := Option.mem_map.mp hg
    rw [wp_bind, wp_ask]
    rcases g w.clock with ⟨cs, frame⟩
    dsimp only
    rw [wp_bind]
    refine wp_mono (hcalls cs _ (htick w hw)) fun _ w₁ _ => ?_
    rw [wp_bind, wp_get]
    cases frame with
    | none => simp
    | some layout =>
      obtain ⟨f, vecs, vecPosition⟩ := layout
      dsimp only
      rw [wp_ite]
      refine ⟨fun ho => ?_, fun _ => by simp⟩
      rw [wp_bind, wp_setFrame, wp_pure]
      intro f' hf
      obtain rfl := Option.some.inj hf
      exact ho
  refuse g hg f w hw := by
    obtain ⟨g, -, rfl⟩ := Option.mem_map.mp hg
    change wp E (getFrame f >>= _) _ w
    rw [wp_bind, wp_getFrame, wp_bind, wp_ask]
    rcases g f (w.heap f) w.clock with ⟨cs, refused⟩
    dsimp only
    rw [wp_bind]
    refine wp_mono (hcalls cs _ (htick w hw)) fun _ w₁ _ => ?_
    rw [wp_bind, wp_get]
    cases refused with
    | none => simp
    | some layout =>
      obtain ⟨vecs, vecPosition⟩ := layout
      dsimp only
      rw [wp_ite]
      exact ⟨fun ho _ => ho, fun _ => by simp⟩

end Delegate

section Functions

variable {env : Env} {d : Delegate π} {E : Fault → Prop} {w : World Dgram π} {f : FrameId}
  {q : List FrameId}

/-- The socket keeps hold of its frames, and its write queue stays as it is. -/
abbrev Keeping {α : Type} (E : Fault → Prop) (q : List FrameId) (m : DgramM π α) : Prop :=
  Preserves E (Holds (π := π) · q) (SocketStep Later) m

/-- The socket keeps hold of its frames. -/
abbrev Holding {α : Type} (E : Fault → Prop) (m : DgramM π α) : Prop :=
  Preserves E (Inv (π := π)) (SocketStep Later) m

theorem Holding.of_keeping {α : Type} {m : DgramM π α} (h : ∀ q, Keeping E q m) : Holding E m :=
  fun w ⟨q, hq⟩ => wp_mono (h q w hq) fun _ _ h' => ⟨⟨q, h'.1⟩, h'.2⟩

/-- What holds on the frames is done later than anything before it. -/
theorem Holding.wp {α : Type} {m : DgramM π α} {s : Dgram} (hm : Holding E m) (h : Inv w)
    (l : Later s w.socket) : wp E m (fun _ w' => Inv w' ∧ Later s w'.socket) w :=
  wp_mono (hm w h) fun _ _ h' => ⟨h'.1, trans_of Later l h'.2⟩

/-- The delegate leaves the frames of the socket alone. -/
structure FrameDelegate (E : Fault → Prop) (d : Delegate π) : Prop where
  preserves : d.Preserves E Inv (SocketStep Later)
  owns : d.Owns E Inv

theorem keeping_ask {α : Type} (r : ℕ → α) : Keeping E q (ask (σ := Dgram) (π := π) r) :=
  fun _ h => ⟨h.tick, id, fun _ => id, id⟩

theorem keeping_beside {g : Dgram → Dgram} (hg : ∀ s, Beside s (g s)) :
    Keeping E q (modifySocket (π := π) g) :=
  fun w h => ⟨h.setSocket (hg w.socket), (hg w.socket).later⟩

theorem holding_beside {g : Dgram → Dgram} (hg : ∀ s, Beside s (g s)) :
    Holding E (modifySocket (π := π) g) := .of_keeping fun _ => keeping_beside hg

theorem holding_record {x : Io} (hx : Silent x) :
    Holding E (FrameTransporter.record (σ := Dgram) (π := π) x) :=
  .of_keeping fun _ _ h => ⟨h.record hx, id, fun _ => id, id⟩

theorem beside_readSetEvent (e : Finset ReadEvent) (s : Dgram) : Beside s (readSetEvent e s) := by
  rw [readSetEvent_eq]
  exact ⟨rfl, rfl, id, rfl⟩

theorem beside_readUnsetEvent (e : Finset ReadEvent) (s : Dgram) :
    Beside s (readUnsetEvent e s) := by
  rw [readUnsetEvent_eq]
  exact ⟨rfl, rfl, id, rfl⟩

theorem beside_writeSetEvent (e : Finset WriteEvent) (s : Dgram) :
    Beside s (writeSetEvent e s) := by
  rw [writeSetEvent_eq]
  exact ⟨rfl, rfl, id, rfl⟩

theorem beside_writeUnsetEvent (e : Finset WriteEvent) (s : Dgram) :
    Beside s (writeUnsetEvent e s) := by
  rw [writeUnsetEvent_eq]
  exact ⟨rfl, rfl, id, rfl⟩

theorem beside_awaitWrite (s : Dgram) : Beside s (awaitWrite s) := by
  obtain ⟨a, b, c, e⟩ := beside_writeSetEvent {.WRITE_WANT_WRITE} { s with writeReady := false }
  exact ⟨a, b, c, e⟩

theorem keeping_cntlReadPause (on : Bool) (hE : on = true ∨ E (.abort .readPauseLevel)) :
    Keeping E q (cntlReadPause (π := π) on) := by
  refine preserves_getSocket_bind fun w hw => ?_
  cases on with
  | true =>
    refine ((keeping_beside fun s => ?_).bind fun _ => (Preserves.when _ fun _ =>
      keeping_beside fun s => beside_readUnsetEvent ∅ s).bind fun _ => preserves_pure _) w hw
    exact ⟨rfl, rfl, id, rfl⟩
  | false =>
    refine (Preserves.ite _ (fun _ => preserves_throw (hE.resolve_left (by simp))) fun _ =>
      (keeping_beside fun s => ?_).bind fun _ => (Preserves.when _ fun _ =>
        keeping_beside fun s => beside_readSetEvent ∅ s).bind fun _ => preserves_pure _) w hw
    exact ⟨rfl, rfl, id, rfl⟩

theorem holding_pauseNoframes : Holding E (pauseNoframes (π := π)) := by
  refine (holding_beside fun s => ?_).bind fun _ => (Holding.of_keeping fun _ =>
    keeping_cntlReadPause true (Or.inl rfl)).bind fun _ => preserves_pure _
  exact ⟨rfl, rfl, id, rfl⟩

/-- A borrowed frame is the user's. -/
theorem poolBorrow_wp (ctx : Context) {type : FrameType} {file : String} {line : ℕ}
    (ht : type ≠ .free) (hl : line ≠ 0) (h : Holds w q) :
    wp E (poolBorrow ctx type file line) (fun r w' => (Holds w' q ∧ Later w.socket w'.socket) ∧
      ∀ f, r = some f → w'.owner f = .user) w := by
  rw [poolBorrow, wp_bind, wp_ask, wp_bind, wp_get]
  cases ctx.framePool w.clock with
  | none => exact ⟨⟨h.tick, id, fun _ => id, id⟩, by simp⟩
  | some f =>
    dsimp only
    rw [wp_ite]
    refine ⟨fun ho => ?_, fun _ => ⟨⟨h.tick, id, fun _ => id, id⟩, by simp⟩⟩
    have ho : w.owner f = .pool := ho
    have h₁ := h.tick.setFrame (f := f) (x := Pool.resetFrame (w.heap f) type file line)
      (fun hne => absurd ho hne) (by simp [ho])
    have h₂ := h₁.setOwner (f := f) (o := .user) (by simp [ho]) (by simp)
      (fun _ => by simpa using Pool.live_resetFrame ht hl)
    refine ⟨⟨h₂, id, fun _ => id, id⟩, fun g hg => ?_⟩
    obtain rfl := Option.some.inj hg
    simp

theorem keeping_poolBorrow (ctx : Context) {type : FrameType} {file : String} {line : ℕ}
    (ht : type ≠ .free) (hl : line ≠ 0) :
    Keeping E q (poolBorrow (σ := Dgram) (π := π) ctx type file line) :=
  fun _ h => wp_mono (poolBorrow_wp ctx ht hl h) fun _ _ h' => h'.1

/-- The state in which a frame is not the socket's any more. -/
def Lets (f : FrameId) (w : World Dgram π) : Prop := Inv (w.setOwner f .user)

theorem setOwner_user (hf : w.owner f = .user) : w.setOwner f .user = w := by
  simp [World.setOwner, ← hf]

theorem lets_of_user (h : Inv w) (hf : w.owner f = .user) : Lets f w := by
  rwa [Lets, setOwner_user hf]

theorem Lets.live (h : Lets f w) : Pool.Live (w.heap f) := h.choose_spec.live f (by simp)

theorem frameReturn_wp (ctx : Context) (h : Lets f w) :
    wp E (frameReturn ctx f) (fun _ w' => Inv w' ∧ Later w.socket w'.socket) w := by
  rw [wp_frameReturn h.live]
  exact ⟨h.imp fun _ hq => hq.returned ctx, id, fun _ => id, id⟩

theorem giveBack_wp {side : Char} (h : Lets f (w.record (.release f side))) :
    wp E (giveBack env f side) (fun _ w' => Inv w' ∧ Later w.socket w'.socket) w := by
  rw [giveBack, wp_bind, wp_record]
  exact frameReturn_wp env.toContext h

theorem lets_release {side : Char} (h : Lets f w) (hs : side ≠ 'W') :
    Lets f (w.record (.release f side)) :=
  h.imp fun _ hq => hq.record fun g => ⟨rfl, by simp [returns, hs]⟩

/-- Whatever the delegate answers, the frame it refuses is its own. -/
theorem deliver_wp {read : FrameId → DgramM π Bool} (hd : FrameDelegate E d)
    (hr : d.read = some read) (h : Lets f w) :
    wp E (deliver read f) (fun taken w' => (Inv w' ∧ Later w.socket w'.socket) ∧
      (taken = false → w'.owner f = .user)) w := by
  rw [deliver, wp_bind, wp_getFrame, wp_bind, wp_setOwner, wp_bind, wp_record, wp_bind]
  have h₁ : Inv ((w.setOwner f .user).record (.offer f (w.heap f).type)) :=
    h.imp fun _ hq => hq.record fun g => ⟨rfl, rfl⟩
  refine wp_mono (wp_and (hd.preserves.read read hr f _ h₁) (hd.owns.refuse read hr f _ h₁)) ?_
  rintro taken w₂ ⟨⟨⟨q, h₂⟩, l₂⟩, ho⟩
  exact ⟨⟨⟨q, h₂.record fun g => ⟨rfl, rfl⟩⟩, l₂.closed, l₂.empty, l₂.free⟩, ho⟩

/-- The end-of-stream frame is not the read frame any more. -/
theorem endOfStreamFrame_wp (h : Inv w) :
    wp E (endOfStreamFrame env) (fun r w' =>
      (∃ f, r = some f ∧ Lets f w' ∧ Later w.socket w'.socket) ∨
        (r = none ∧ Inv w' ∧ Later w.socket w'.socket)) w := by
  have hborrow : wp E (poolBorrow env.toContext .endOfStream "dgram.c" 334) (fun r w' =>
      (∃ f, r = some f ∧ Lets f w' ∧ Later w.socket w'.socket) ∨
        (r = none ∧ Inv w' ∧ Later w.socket w'.socket)) w := by
    obtain ⟨q, h⟩ := h
    refine wp_mono (poolBorrow_wp env.toContext (by simp) (by simp) h) ?_
    rintro r w' ⟨⟨h', l⟩, ho⟩
    cases r with
    | none => exact Or.inr ⟨rfl, ⟨q, h'⟩, l⟩
    | some f => exact Or.inl ⟨f, rfl, lets_of_user ⟨q, h'⟩ (ho f rfl), l⟩
  rw [endOfStreamFrame, wp_bind, wp_getSocket]
  cases hf : w.socket.readFrame with
  | none => exact hborrow
  | some f =>
    obtain ⟨q, h⟩ := h
    dsimp only
    rw [wp_bind, wp_getFrame, wp_ite]
    refine ⟨fun _ => ?_, fun _ => hborrow⟩
    rw [wp_bind, wp_modifySocket, wp_bind, wp_setFrame, wp_pure]
    have hd := h.detach hf
    have hl := hd.live f (by simp)
    refine Or.inl ⟨f, rfl, ⟨q, ?_⟩, id, fun _ => id, fun _ => rfl⟩
    exact hd.setFrame (f := f) (x := { (w.heap f).formatEmpty with type := .endOfStream })
      (fun _ => ⟨by simp, hl.2⟩) (by simp)

theorem holding_uplinkEndOfStream (hd : FrameDelegate E d)
    (hE : d.read = none → E (.abort .delegateRead)) : Holding E (uplinkEndOfStream env d) := by
  intro w h
  rw [uplinkEndOfStream, wp_bind]
  refine wp_mono (endOfStreamFrame_wp h) ?_
  rintro r w₁ (⟨f, rfl, h₁, l₁⟩ | ⟨rfl, h₁, l₁⟩)
  · have h₂ : Lets f (w₁.record (.readEnd (some f))) := h₁.imp fun _ hq =>
      hq.record fun g => ⟨rfl, rfl⟩
    rw [wp_bind, wp_record]
    dsimp only
    cases hr : d.read with
    | none => exact hE hr
    | some read =>
      dsimp only
      rw [wp_bind]
      refine wp_mono (deliver_wp hd hr h₂) ?_
      rintro taken w₃ ⟨⟨h₃, l₃⟩, ho⟩
      rw [wp_ite]
      refine ⟨fun _ => ⟨h₃, trans_of Later l₁ l₃⟩, fun ht => ?_⟩
      have h₄ : Lets f (w₃.record (.release f 'R')) :=
        lets_release (lets_of_user h₃ (ho (by simpa using ht))) (by simp)
      refine wp_mono (giveBack_wp h₄) fun _ w₄ h' => ⟨h'.1, ?_⟩
      exact trans_of Later (trans_of Later l₁ l₃) h'.2
  · rw [wp_bind, wp_record]
    obtain ⟨q, hq⟩ := h₁
    have h₂ : Inv (w₁.record (.readEnd none)) := ⟨q, hq.record fun g => ⟨rfl, rfl⟩⟩
    exact holding_pauseNoframes.wp h₂ l₁

/-- A shutdown closes the write side. -/
theorem shutdownReal_holds (hd : FrameDelegate E d)
    (hE : d.read = none → E (.abort .delegateRead)) (uplinkEos : Bool) (h : Inv w) :
    wp E (shutdownReal env d uplinkEos) (fun _ w' => (Inv w' ∧ Later w.socket w'.socket) ∧
      w'.socket.writeOpen = false ∧ (w.socket.writeFrames = none → w'.socket.writeFrames = none))
        w := by
  rw [shutdownReal, wp_bind, cntlReadStop, wp_bind, wp_modifySocket, wp_pure, wp_bind, wp_ask,
    wp_bind, wp_modifySocket, wp_bind, wp_record, wp_when]
  obtain ⟨q, h⟩ := h
  have hs : Beside w.socket { readUnsetEvent {.READ_WANT_READ} w.socket with
      shutdownAt := some (env.evNow w.clock), shutdown := true, writeOpen := false } := by
    rw [readUnsetEvent_eq]
    exact ⟨rfl, rfl, fun _ => rfl, rfl⟩
  have h₁ := (h.tick.setSocket hs).record (x := .shutdown .SHUT_RDWR) fun g => ⟨rfl, rfl⟩
  have l₁ := hs.later
  refine ⟨fun _ => ?_, fun _ => ⟨⟨⟨q, h₁⟩, l₁⟩, rfl, hs.writeFrames.trans⟩⟩
  refine wp_mono (holding_uplinkEndOfStream hd hE _ ⟨q, h₁⟩) ?_
  rintro _ w₂ ⟨h₂, l₂⟩
  refine ⟨⟨h₂, trans_of Later l₁ l₂⟩, l₂.closed rfl, fun hf => ?_⟩
  exact l₂.empty rfl (hs.writeFrames.trans hf)

theorem holding_error (hd : FrameDelegate E d) (hE : d.read = none → E (.abort .delegateRead))
    (e : Errno) : Holding E (error env d e) := by
  refine (holding_beside fun s => ?_).bind fun _ => preserves_getSocket_bind fun w hw => ?_
  · exact ⟨rfl, rfl, id, rfl⟩
  refine ((holding_record fun g => ⟨rfl, rfl⟩).bind fun _ => hd.preserves.error.bind fun _ => ?_)
    w hw
  exact fun w hw => wp_mono (shutdownReal_holds hd hE false hw) fun _ _ h => h.1

/-- The front frame of the queue is returned. -/
theorem returnWriteFrame_holds {q : List FrameId} (h : Holds w (f :: q)) :
    wp E (returnWriteFrame env f) (fun _ w' => Holds w' q ∧ Later w.socket w'.socket ∧
      w'.clock = w.clock + 1) w := by
  have hq := h.dequeue (if (w.heap f).next = none then .head else w.socket.writeFrameLast)
    fun _ => rfl
  have hne : w.socket.writeFrames ≠ none := by simp [(chain_cons.mp h.chain).1]
  rw [returnWriteFrame, wp_bind, wp_getFrame, wp_bind, wp_modifySocket, giveBack, wp_bind,
    wp_record]
  refine (wp_frameReturn (Lets.live ⟨q, hq⟩)).mpr ?_
  exact ⟨hq.returned env.toContext, ⟨id, fun _ hf => absurd hf hne, id⟩, rfl⟩

end Functions

end Dgram

end FrameTransporter
