import FrameTransporter.Sock.Stream.Run

/-! # The frames that a stream has in its custody

The frames in the write queue are the writer's, and the read frame is the reader's,
so no frame is in both places. Users touch neither. Code that changes the socket
only beside its frames, or frames only beside the socket, leaves this as it is.
-/

namespace FrameTransporter

open Hoare Intrusive

namespace Stream

variable {π : Type}

/-- The write queue holds the listed frames, and only the last of them may end the stream. The read
frame is none of them. -/
structure Custody (w : World Stream π) (q : List FrameId) : Prop where
  chain : Chain w.next w.socket.writeFrames q
  last : w.socket.writeOpen = true → w.socket.writeFrameLast = Link.last q
  writer : ∀ f ∈ q, w.owner f = .writer
  reader : ∀ f, w.socket.readFrame = some f → w.owner f = .reader
  closed : ∀ f ∈ q, (w.heap f).type = .endOfStream →
    w.socket.writeOpen = false ∧ ∃ pre, q = pre ++ [f]

/-- A change of the socket beside its frames, which takes no frame to read. -/
structure FramesKept (s s' : Stream) : Prop where
  writeFrames : s'.writeFrames = s.writeFrames
  writeFrameLast : s'.writeFrameLast = s.writeFrameLast
  writeOpen : s.writeOpen = false → s'.writeOpen = false
  readFrame : ∀ f, s'.readFrame = some f → s.readFrame = some f

section Kept

variable (a : Finset ReadEvent) (b : Finset WriteEvent) (s : Stream)

theorem framesKept_readSetEvent : FramesKept s (readSetEvent a s) := by
  rw [readSetEvent_eq]
  exact ⟨rfl, rfl, id, fun _ => id⟩

theorem framesKept_readUnsetEvent : FramesKept s (readUnsetEvent a s) := by
  rw [readUnsetEvent_eq]
  exact ⟨rfl, rfl, id, fun _ => id⟩

theorem framesKept_writeSetEvent : FramesKept s (writeSetEvent b s) := by
  rw [writeSetEvent_eq]
  exact ⟨rfl, rfl, id, fun _ => id⟩

theorem framesKept_writeUnsetEvent : FramesKept s (writeUnsetEvent b s) := by
  rw [writeUnsetEvent_eq]
  exact ⟨rfl, rfl, id, fun _ => id⟩

theorem framesKept_awaitWrite : FramesKept s (awaitWrite s) := by
  rw [awaitWrite, writeSetEvent_eq]
  exact ⟨rfl, rfl, id, fun _ => id⟩

theorem framesKept_started : FramesKept s (started s) := by
  rw [started, writeSetEvent_eq, readSetEvent_eq]
  exact ⟨rfl, rfl, id, fun _ => id⟩

end Kept

/-- The frames that a delegate answers to `get_read_frame`, and those that it refuses, are the
user's. -/
structure Delegate.AnswersOwn (d : Delegate π) : Prop where
  fetch : ∀ g ∈ d.getReadFrame, ∀ w,
    wp (fun _ => True) g (fun r w' => ∀ f, r = some f → w'.owner f = .user) w
  refuse : ∀ f w,
    wp (fun _ => True) (d.read f) (fun taken w' => taken = false → w'.owner f = .user) w

namespace Custody

variable {w : World Stream π} {q : List FrameId} {f : FrameId} {x : Frame} {s : Stream}

theorem not_mem (h : Custody w q) (ho : w.owner f ≠ .writer) : f ∉ q :=
  fun hf => ho (h.writer f hf)

theorem readFrame_ne (h : Custody w q) (ho : w.owner f ≠ .reader) : w.socket.readFrame ≠ some f :=
  fun hf => ho (h.reader f hf)

theorem tick (h : Custody w q) : Custody w.tick q := { h with }

theorem record (h : Custody w q) (y : Io) : Custody (w.record y) q := { h with }

theorem setSocket (h : Custody w q) (hs : FramesKept w.socket s) : Custody (w.setSocket s) q where
  chain := hs.writeFrames ▸ h.chain
  last ho := hs.writeFrameLast.trans (h.last (by
    by_contra hc
    simp [hs.writeOpen (Bool.not_eq_true _ ▸ hc)] at ho))
  writer := h.writer
  reader f hf := h.reader f (hs.readFrame f hf)
  closed f hf ht := ⟨hs.writeOpen (h.closed f hf ht).1, (h.closed f hf ht).2⟩

/-- A queued frame may change as long as it keeps its header. -/
theorem setFrame (h : Custody w q)
    (hx : w.owner f = .writer → x.next = (w.heap f).next ∧ x.type = (w.heap f).type) :
    Custody (w.setFrame f x) q where
  __ := h
  chain := h.chain.congr fun g hg => by
    by_cases e : g = f
    · subst e
      simpa [World.next] using (hx (h.writer g hg)).1.symm
    · simp [World.next, e]
  closed g hg ht := by
    refine h.closed g hg ?_
    by_cases e : g = f
    · subst e
      rw [← (hx (h.writer g hg)).2]
      simpa using ht
    · simpa [e] using ht

/-- Frames beside the queue change hands. -/
theorem setOwner {o : Owner} (h : Custody w q) (hf : f ∉ q)
    (hr : w.socket.readFrame = some f → o = .reader) : Custody (w.setOwner f o) q where
  __ := h
  writer g hg := by
    have hne : g ≠ f := fun e => hf (e ▸ hg)
    simpa [hne] using h.writer g hg
  reader g hg := by
    by_cases e : g = f
    · subst e
      simpa using hr hg
    · simpa [e] using h.reader g hg

/-- A frame of the user becomes the read frame. -/
theorem attach (h : Custody w q) (hf : w.owner f ≠ .writer) :
    Custody ((w.setOwner f .reader).setSocket { w.socket with readFrame := some f }) q := by
  have h₁ := h.setOwner (f := f) (o := .reader) (h.not_mem hf) fun _ => rfl
  constructor
  case reader =>
    intro g hg
    obtain rfl := Option.some.inj hg
    simp
  case chain => exact h₁.chain
  case last => exact h₁.last
  case writer => exact h₁.writer
  case closed => exact h₁.closed

/-- The front frame leaves the queue. The link to the end of the queue matters only while the
stream takes frames. -/
theorem dequeue (h : Custody w (f :: q)) (last : Link FrameId) (n : ℕ)
    (hl : w.socket.writeOpen = true →
      last = if (w.heap f).next = none then .head else w.socket.writeFrameLast) :
    Custody (w.setSocket { w.socket with
      writeQueueLength := n, writeFrames := (w.heap f).next, writeFrameLast := last }) q where
  chain := (chain_cons.mp h.chain).2
  last ho := (hl ho).trans (Queue.mk h.chain (h.last ho)).dequeue.last_eq
  writer g hg := h.writer g (List.mem_cons_of_mem _ hg)
  reader := h.reader
  closed g hg ht := by
    obtain ⟨hfq, -⟩ := List.nodup_cons.mp h.chain.nodup
    obtain ⟨ho, pre, hpre⟩ := h.closed g (List.mem_cons_of_mem _ hg) ht
    cases pre with
    | nil => exact absurd ((List.cons.inj hpre).2 ▸ hg) (by simp)
    | cons a pre => exact ⟨ho, pre, (List.cons.inj hpre).2⟩

/-- The front frame is not in the rest of the queue, nor read into. -/
theorem front (h : Custody w (f :: q)) : f ∉ q ∧ w.socket.readFrame ≠ some f :=
  ⟨(List.nodup_cons.mp h.chain.nodup).1, h.readFrame_ne (by simp [h.writer f (by simp)])⟩

/-- The end-of-stream frame is the last of the queue. -/
theorem eq_nil (h : Custody w (f :: q)) (ht : (w.heap f).type = .endOfStream) :
    q = [] ∧ w.socket.writeOpen = false := by
  obtain ⟨ho, pre, hpre⟩ := h.closed f (by simp) ht
  refine ⟨?_, ho⟩
  cases pre with
  | nil => simpa using hpre
  | cons a pre =>
    have hm : f ∈ q := by simp [(List.cons.inj hpre).2]
    exact absurd hm (List.nodup_cons.mp h.chain.nodup).1

/-- A frame of the user is added to the queue. -/
theorem enqueue (h : Custody w q) (hop : w.socket.writeOpen = true) (hf : w.owner f = .user) :
    Custody (queued w f) (q ++ [f]) := by
  have hfq : f ∉ q := h.not_mem (by simp [hf])
  have henq := (Queue.mk h.chain (h.last hop)).enqueue hfq
  constructor
  case chain => exact henq.chain
  case last => exact fun _ => henq.last_eq
  case writer =>
    intro g hg
    by_cases e : g = f
    · subst e
      simp [queued]
    · simpa [queued, e] using h.writer g (by simpa [e] using hg)
  case reader =>
    intro g hg
    have hr := h.reader g hg
    have e : g ≠ f := by
      rintro rfl
      simp [hf] at hr
    simpa [queued, e] using hr
  case closed =>
    intro g hg ht
    rcases List.mem_append.mp hg with hg | hg
    · have hc := (h.closed g hg ht).1
      simp [hop] at hc
    · obtain rfl := List.mem_singleton.mp hg
      have ht : (w.heap g).type = .endOfStream := ht
      exact ⟨by simp [queued, ht], q, rfl⟩

end Custody

theorem custody_init (o : Opening) (proto : π) (data : FrameId → ℕ → UInt8) :
    Custody (World.init (opened o) proto data) [] := by
  cases o <;> exact ⟨by simp [World.init, opened, writeSetEvent_eq, readSetEvent_eq, Stream.init],
    fun _ => rfl, by simp,
    fun f hf => by simp [World.init, opened, writeSetEvent_eq, readSetEvent_eq, Stream.init] at hf,
    by simp⟩

/-- The delegate of a script answers and refuses its own frames only. -/
theorem Script.answersOwn (script : Script) (calls : List Call → StreamM π Unit) :
    (script.delegate calls).AnswersOwn where
  fetch := by
    intro g hg w
    obtain ⟨g, -, rfl⟩ := Option.mem_map.mp hg
    rw [wp_bind, wp_ask]
    rcases g w.clock with ⟨cs, frame⟩
    dsimp only
    rw [wp_bind]
    refine wp_intro (fun _ w₁ _ => ?_) fun _ _ => trivial
    rw [wp_bind, wp_get]
    cases frame with
    | none => simp
    | some layout =>
      obtain ⟨f, vecs, vecPosition⟩ := layout
      dsimp only
      rw [wp_ite]
      refine ⟨fun ho => ?_, fun _ => by simp⟩
      rw [wp_bind, wp_setFrame, wp_pure]
      intro f' hf
      obtain rfl := Option.some.inj hf
      exact ho
  refuse := by
    intro f w
    change wp _ (getFrame f >>= _) _ w
    rw [wp_bind, wp_getFrame, wp_bind, wp_ask]
    rcases script.read f (w.heap f) w.clock with ⟨cs, refused⟩
    dsimp only
    rw [wp_bind]
    refine wp_intro (fun _ w₁ _ => ?_) fun _ _ => trivial
    rw [wp_bind, wp_get]
    cases refused with
    | none => simp
    | some layout =>
      obtain ⟨vecs, vecPosition⟩ := layout
      dsimp only
      rw [wp_ite]
      exact ⟨fun ho _ => ho, fun _ => by simp⟩

end Stream

end FrameTransporter
