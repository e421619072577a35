import Mathlib.Data.List.Count
import FrameTransporter.Sock.Stream.Run

/-! # The length of the write queue as it is counted

The counter of a stream is raised for every frame that enters the write queue, but it
is lowered for data frames only. It exceeds the length of the queue by the number of
end-of-stream frames that left, and a data frame at the front is always counted.
-/

namespace FrameTransporter

open Hoare Intrusive

namespace Stream.QueueLength

open WriteEvent

variable {π : Type}

/-- An end-of-stream frame is accepted. -/
def acceptsEnd : Io → Bool
  | .accepted _ .endOfStream _ => true
  | _ => false

/-- How many frames of the queue end the stream. -/
def ends (w : World Stream π) (q : List FrameId) : ℕ :=
  q.countP fun f => (w.heap f).type = .endOfStream

/-- How many end-of-stream frames were accepted. -/
def acceptedEnds (w : World Stream π) : ℕ := w.trace.countP acceptsEnd

/-- The write queue of a stream without TLS holds the listed frames. The counter exceeds their
number by the end-of-stream frames that were accepted and left. -/
structure Counted (w : World Stream π) (q : List FrameId) : Prop where
  chain : Chain w.next w.socket.writeFrames q
  last : w.socket.writeOpen = true → w.socket.writeFrameLast = Link.last q
  writer : ∀ f ∈ q, w.owner f = .writer
  closed : ∀ f ∈ q, (w.heap f).type = .endOfStream → w.socket.writeOpen = false
  ssl : w.socket.ssl = false
  count : w.socket.writeQueueLength + ends w q = q.length + acceptedEnds w

def Inv (w : World Stream π) : Prop := ∃ q, Counted w q

/-- Every return of `m` from a state with the invariant has it again. -/
abbrev Keeps {α : Type} (m : StreamM π α) : Prop :=
  Preserves (· ≠ .abort .writeQueueLength) Inv Unrelated m

section Changes

variable {w : World Stream π} {q : List FrameId} {f : FrameId} {x : Frame} {s : Stream}

theorem Counted.not_mem (h : Counted w q) (ho : w.owner f ≠ .writer) : f ∉ q :=
  fun hf => ho (h.writer f hf)

/-- A data frame at the front is counted. -/
theorem Counted.pos (h : Counted w (f :: q)) (ht : (w.heap f).type ≠ .endOfStream) :
    0 < w.socket.writeQueueLength := by
  have hcount := h.count
  have hends : ends w (f :: q) = ends w q := List.countP_cons_of_neg (by simpa using ht)
  have hle : ends w q ≤ q.length := List.countP_le_length
  rw [hends, List.length_cons] at hcount
  omega

theorem Counted.tick (h : Counted w q) : Counted w.tick q := { h with }

theorem Counted.record {y : Io} (h : Counted w q) (hy : acceptsEnd y = false) :
    Counted (w.record y) q where
  __ := h
  count := by
    have hends : acceptedEnds (w.record y) = acceptedEnds w := by
      simp [acceptedEnds, List.countP_append, hy]
    rw [hends]
    exact h.count

/-- Frames of the queue keep their link and their type, and others may change. -/
theorem Counted.setFrame (h : Counted w q)
    (hx : f ∈ q → x.next = (w.heap f).next ∧ x.type = (w.heap f).type) :
    Counted (w.setFrame f x) q := by
  have hsame : ∀ g ∈ q, ((w.setFrame f x).heap g).next = (w.heap g).next ∧
      ((w.setFrame f x).heap g).type = (w.heap g).type := by
    intro g hg
    by_cases e : g = f
    · subst e
      simpa using hx hg
    · simp [e]
  constructor
  case chain => exact h.chain.congr fun g hg => (hsame g hg).1.symm
  case last => exact h.last
  case writer => exact h.writer
  case closed => exact fun g hg ht => h.closed g hg ((hsame g hg).2 ▸ ht)
  case ssl => exact h.ssl
  case count =>
    have hends : ends (w.setFrame f x) q = ends w q :=
      List.countP_congr fun g hg => by rw [(hsame g hg).2]
    rw [hends]
    exact h.count

theorem Counted.setOwner {o : Owner} (h : Counted w q) (hf : f ∉ q) :
    Counted (w.setOwner f o) q where
  __ := h
  writer g hg := by
    have hne : g ≠ f := fun e => hf (e ▸ hg)
    simpa [hne] using h.writer g hg

/-- A change of the socket beside the write queue, which does not open it again. -/
structure Beside (s s' : Stream) : Prop where
  writeFrames : s'.writeFrames = s.writeFrames
  writeFrameLast : s'.writeFrameLast = s.writeFrameLast
  writeOpen : s.writeOpen = false → s'.writeOpen = false
  writeQueueLength : s'.writeQueueLength = s.writeQueueLength
  ssl : s'.ssl = s.ssl

theorem Counted.setSocket (h : Counted w q) (hs : Beside w.socket s) :
    Counted (w.setSocket s) q where
  chain := hs.writeFrames ▸ h.chain
  last ho := hs.writeFrameLast.trans (h.last (by
    by_contra hc
    simp [hs.writeOpen (Bool.not_eq_true _ ▸ hc)] at ho))
  writer := h.writer
  closed f hf ht := hs.writeOpen (h.closed f hf ht)
  ssl := hs.ssl.trans h.ssl
  count := by
    have hcount := h.count
    rw [← hs.writeQueueLength] at hcount
    exact hcount

/-- The frame at the front leaves the queue. The counter is lowered unless it ends the stream. -/
theorem Counted.dequeue {n : ℕ} {e : Link FrameId} (h : Counted w (f :: q))
    (hn : w.socket.writeQueueLength = n + if (w.heap f).type = .endOfStream then 0 else 1)
    (hlast : w.socket.writeOpen = true → e = Link.last q) :
    Counted (w.setSocket { w.socket with
      writeQueueLength := n, writeFrames := (w.heap f).next, writeFrameLast := e }) q where
  chain := (chain_cons.mp h.chain).2
  last := hlast
  writer g hg := h.writer g (List.mem_cons_of_mem _ hg)
  closed g hg := h.closed g (List.mem_cons_of_mem _ hg)
  ssl := h.ssl
  count := by
    have hcount := h.count
    rw [ends, List.countP_cons, List.length_cons] at hcount
    change n + ends w q = q.length + acceptedEnds w
    rw [ends]
    split_ifs at hn hcount <;> simp_all <;> omega

/-- A frame enters the queue. -/
theorem Counted.queued (h : Counted w q) (ho : w.socket.writeOpen = true) (hf : w.owner f = .user) :
    Counted (queued w f) (q ++ [f]) := by
  have hfq : f ∉ q := h.not_mem (by simp [hf])
  have henq := (Queue.mk h.chain (h.last ho)).enqueue hfq
  constructor
  case chain => exact henq.chain
  case last => exact fun _ => henq.last_eq
  case writer =>
    intro g hg
    by_cases e : g = f
    · subst e
      simp [Stream.queued]
    · simpa [Stream.queued, e] using h.writer g (by simpa [e] using hg)
  case closed =>
    intro g hg ht
    rcases List.mem_append.mp hg with hg | hg
    · simp [h.closed g hg ht] at ho
    · obtain rfl := List.mem_singleton.mp hg
      have ht : (w.heap g).type = .endOfStream := ht
      simp [Stream.queued, ht]
  case ssl => exact h.ssl
  case count =>
    have hcount := h.count
    have hends : ends (Stream.queued w f) (q ++ [f]) =
        ends w q + if (w.heap f).type = .endOfStream then 1 else 0 := by
      rw [ends, List.countP_append, List.countP_singleton]
      simp [ends, Stream.queued]
    have haccepted : acceptedEnds (Stream.queued w f) =
        acceptedEnds w + if (w.heap f).type = .endOfStream then 1 else 0 := by
      have hend : acceptsEnd (.accepted f (w.heap f).type (w.heap f).pendingBytes) =
          decide ((w.heap f).type = .endOfStream) := by
        cases (w.heap f).type <;> rfl
      simp [acceptedEnds, Stream.queued, List.countP_append, List.countP_singleton, hend]
    rw [hends, haccepted, List.length_append, List.length_singleton]
    change w.socket.writeQueueLength + 1 + _ = _
    omega

end Changes

section Functions

variable {env : Env} {d : Delegate π} {w : World Stream π} {q : List FrameId} {f : FrameId}

theorem keeps_throw {α : Type} {a : Assertion} (ha : a ≠ .writeQueueLength) :
    Keeps (throw (.abort a) : StreamM π α) := preserves_throw (by simpa using ha)

theorem keeps_ask {α : Type} (r : ℕ → α) : Keeps (ask (σ := Stream) (π := π) r) :=
  fun _ h => ⟨h.imp fun _ => Counted.tick, trivial⟩

theorem keeps_record {y : Io} (hy : acceptsEnd y = false) :
    Keeps (FrameTransporter.record (σ := Stream) (π := π) y) :=
  fun _ h => ⟨h.imp fun _ hq => hq.record hy, trivial⟩

theorem keeps_modifySocket {g : Stream → Stream} (hg : ∀ s, Beside s (g s)) :
    Keeps (modifySocket (π := π) g) := fun w h =>
  ⟨h.imp fun _ hq => hq.setSocket (hg w.socket), trivial⟩

theorem beside_writeSetEvent (e : Finset WriteEvent) (s : Stream) :
    Beside s (writeSetEvent e s) := by
  rw [writeSetEvent_eq]
  exact ⟨rfl, rfl, id, rfl, rfl⟩

theorem beside_writeUnsetEvent (e : Finset WriteEvent) (s : Stream) :
    Beside s (writeUnsetEvent e s) := by
  rw [writeUnsetEvent_eq]
  exact ⟨rfl, rfl, id, rfl, rfl⟩

theorem keeps_awaitWrite : Keeps (modifySocket (π := π) awaitWrite) :=
  keeps_modifySocket fun s => by
    rw [awaitWrite, writeSetEvent_eq]
    exact ⟨rfl, rfl, id, rfl, rfl⟩

theorem keeps_error (hd : Keeps d.error) (e : Option Errno) (l : ℕ) :
    Keeps (Stream.error env d e l) := by
  refine Preserves.ite _ (fun _ => keeps_throw (by simp)) fun _ => ?_
  refine (keeps_ask _).bind fun now => (keeps_modifySocket fun s => ?_).bind fun _ =>
    preserves_getSocket_bind fun w h => ((keeps_record rfl).bind fun _ => hd.bind fun _ =>
      (keeps_modifySocket fun s => ?_).bind fun _ => (keeps_modifySocket fun s => ?_).bind fun _ =>
        keeps_record rfl) w h
  · exact ⟨rfl, rfl, fun _ => rfl, rfl, rfl⟩
  all_goals exact ⟨rfl, rfl, id, rfl, rfl⟩

/-- A frame outside the queue goes back to the pool. -/
theorem frameReturn_wp (ctx : Context) (h : Counted w q) (hf : f ∉ q) :
    wp (· ≠ .abort .writeQueueLength) (frameReturn ctx f)
      (fun _ w' => Inv w' ∧ Unrelated w w') w := by
  rw [frameReturn, wp_bind, wp_getFrame, wp_ite, wp_ite, wp_ite]
  refine ⟨fun _ => by rintro ⟨⟩, fun _ => ⟨fun _ => by rintro ⟨⟩, fun _ => ⟨fun _ => by rintro ⟨⟩,
    fun _ => ?_⟩⟩⟩
  rw [wp_bind, wp_ask, wp_bind, wp_setFrame, wp_bind, wp_setOwner, wp_record]
  exact ⟨⟨q, ((h.tick.setFrame fun hm => absurd hm hf).setOwner hf).record rfl⟩, trivial⟩

theorem releaseFrame_wp (hd : d.Preserves (· ≠ .abort .writeQueueLength) Inv Unrelated)
    (side : Char) (h : Counted w q) (hf : f ∉ q) :
    wp (· ≠ .abort .writeQueueLength) (releaseFrame env d f side)
      (fun _ w' => Inv w' ∧ Unrelated w w') w := by
  have h₁ : Counted ((w.setOwner f .user).record (.release f side)) q :=
    (h.setOwner hf).record rfl
  rw [releaseFrame, wp_bind, wp_setOwner, wp_bind, wp_record]
  cases hg : d.frameReturn with
  | none => exact frameReturn_wp env.toContext h₁ hf
  | some g => exact hd.frameReturn g hg f side _ ⟨q, h₁⟩

/-- An end-of-stream frame leaves the queue and is not counted off. -/
theorem writeEndOfStream_wp (hd : d.Preserves (· ≠ .abort .writeQueueLength) Inv Unrelated)
    (h : Counted w (f :: q)) (ht : (w.heap f).type = .endOfStream) :
    wp (· ≠ .abort .writeQueueLength) (writeEndOfStream env d f)
      (fun _ w' => Inv w' ∧ Unrelated w w') w := by
  have hclosed := h.closed f (by simp) ht
  have hf : f ∉ q := (List.nodup_cons.mp h.chain.nodup).1
  have h₁ := h.dequeue (n := w.socket.writeQueueLength) (e := w.socket.writeFrameLast)
    (by simp [ht]) fun ho => by simp [hclosed] at ho
  rw [writeEndOfStream, wp_bind, wp_getFrame, wp_bind, wp_modifySocket, wp_bind]
  refine wp_mono (releaseFrame_wp hd 'W' h₁ hf) ?_
  rintro _ w₂ ⟨h₂, _⟩
  rw [wp_bind, wp_getSocket, wp_ite]
  refine ⟨fun _ => by rintro ⟨⟩, fun _ => ?_⟩
  have hssl : w₂.socket.ssl = false := h₂.choose_spec.ssl
  rw [if_neg (by simp [hssl])]
  refine ((keeps_modifySocket fun s => beside_writeUnsetEvent _ s).bind fun _ =>
    (keeps_ask _).bind fun now => (keeps_modifySocket fun s => ?_).bind fun _ =>
      keeps_record rfl) w₂ h₂
  exact ⟨rfl, rfl, id, rfl, rfl⟩

/-- Either the write loop returns, or bytes were sent and nothing else happened. -/
theorem transmit_wp (hd : d.Preserves (· ≠ .abort .writeQueueLength) Inv Unrelated)
    (h : Inv w) (bytes : List UInt8) :
    wp (· ≠ .abort .writeQueueLength) (transmit env d bytes) (fun r w' =>
      match r with
      | none => Inv w'
      | some _ => ∃ sent, w' = w.tick.record (.send sent)) w := by
  have hawait : ∀ (sent : List UInt8), wp (· ≠ .abort .writeQueueLength)
      (modifySocket awaitWrite) (fun _ w' => Inv w') (w.tick.record (.send sent)) := by
    intro sent
    have h₁ : Inv (w.tick.record (.send sent)) := h.imp fun _ hq => hq.tick.record rfl
    exact wp_mono (keeps_awaitWrite _ h₁) fun _ _ hw => hw.1
  rw [transmit, wp_bind, wp_getSocket, if_pos h.choose_spec.ssl, wp_bind, wp_ask]
  cases env.send w.socket w.clock with
  | failed e =>
    have herror : wp (· ≠ .abort .writeQueueLength) (Stream.error env d (some e) 0)
        (fun _ w' => Inv w') (w.tick.record (.send [])) := by
      have h₁ : Inv (w.tick.record (.send [])) := h.imp fun _ hq => hq.tick.record rfl
      exact wp_mono (keeps_error hd.error _ 0 _ h₁) fun _ _ hw => hw.1
    cases e with
    | EAGAIN =>
      rw [wp_bind, wp_record, wp_bind]
      exact hawait []
    | _ =>
      dsimp only
      rw [wp_bind, wp_record, wp_bind]
      exact herror
  | sent n =>
    dsimp only
    rw [wp_bind, wp_record, wp_ite]
    refine ⟨fun _ => ?_, fun _ => ⟨_, rfl⟩⟩
    rw [wp_bind]
    exact hawait _

/-- A data frame that was written leaves the queue and is counted off. -/
theorem dequeueFrame_wp (hd : d.Preserves (· ≠ .abort .writeQueueLength) Inv Unrelated)
    (h : Counted w (f :: q)) (ht : (w.heap f).type ≠ .endOfStream) :
    wp (· ≠ .abort .writeQueueLength) (dequeueFrame env d f)
      (fun _ w' => Inv w' ∧ Unrelated w w') w := by
  have hpos := h.pos ht
  have hf : f ∉ q := (List.nodup_cons.mp h.chain.nodup).1
  have h₁ := h.dequeue (n := w.socket.writeQueueLength - 1)
    (e := if (w.heap f).next = none then .head else w.socket.writeFrameLast)
    (by rw [if_neg ht]; omega) fun ho => (Queue.mk h.chain (h.last ho)).dequeue.last_eq
  rw [dequeueFrame, wp_bind, wp_getSocket, wp_bind, wp_getFrame, if_neg hpos.ne', wp_bind,
    wp_modifySocket]
  exact releaseFrame_wp hd 'W' h₁ hf

theorem writeVec_wp (hd : d.Preserves (· ≠ .abort .writeQueueLength) Inv Unrelated)
    (h : Counted w (f :: q)) (ht : (w.heap f).type ≠ .endOfStream) :
    wp (· ≠ .abort .writeQueueLength) (writeVec env d f) (fun _ w' => Inv w') w := by
  rw [writeVec, wp_bind, wp_getFrame, wp_bind]
  cases hv : (w.heap f).getVec with
  | error e =>
    rw [wp_liftM_error, Frame.getVec_error hv]
    rintro ⟨⟩
  | ok v =>
    rw [wp_liftM_ok]
    cases v with
    | none => rintro ⟨⟩
    | some v =>
      dsimp only
      rw [wp_ite]
      refine ⟨fun _ => by rintro ⟨⟩, fun _ => ?_⟩
      rw [wp_bind]
      refine wp_mono (transmit_wp hd ⟨_, h⟩ _) fun r w₁ hr => ?_
      cases r with
      | none => exact hr
      | some n =>
        obtain ⟨sent, rfl⟩ := hr
        have h₁ : Counted (w.tick.record (.send sent)) (f :: q) := h.tick.record rfl
        dsimp only
        rw [wp_bind]
        cases hx : (w.heap f).advanceVec v n with
        | error e =>
          rw [wp_liftM_error]
          rcases Frame.advanceVec_abort hx with rfl | rfl <;> rintro ⟨⟩
        | ok x =>
          have hsame : x.next = (w.heap f).next ∧ x.type = (w.heap f).type :=
            Frame.advanceVec_header hx
          have h₂ := h₁.setFrame (f := f) (x := x) fun _ => hsame
          rw [wp_liftM_ok, wp_bind, wp_setFrame, wp_ite]
          refine ⟨fun _ => ?_, fun _ => ?_⟩
          · rw [wp_bind]
            exact wp_mono (keeps_awaitWrite _ ⟨_, h₂⟩) fun _ _ hw => hw.1
          · rw [wp_bind]
            cases hy : x.nextVec with
            | error e =>
              rw [wp_liftM_error, Frame.nextVec_error hy]
              rintro ⟨⟩
            | ok r =>
              obtain ⟨more, y⟩ := r
              have hsame' : y.next = x.next ∧ y.type = x.type := Frame.nextVec_header hy
              have h₃ := h₂.setFrame (f := f) (x := y) fun _ => by simpa using hsame'
              rw [wp_liftM_ok]
              dsimp only
              rw [wp_bind, wp_setFrame, wp_ite]
              refine ⟨fun _ => ⟨_, h₃⟩, fun _ => ?_⟩
              rw [wp_bind]
              exact wp_mono (dequeueFrame_wp hd h₃ (by simpa [hsame'.2, hsame.2] using ht))
                fun _ _ hw => hw.1

theorem keeps_writeLoop (hd : d.Preserves (· ≠ .abort .writeQueueLength) Inv Unrelated) (n : ℕ) :
    Keeps (writeLoop env d n) := by
  induction n with
  | zero =>
    exact preserves_getSocket_bind fun w h => Preserves.when _ (fun _ => keeps_awaitWrite) w h
  | succ n ih =>
    refine preserves_getSocket_bind ?_
    rintro w ⟨q, h⟩
    cases hf : w.socket.writeFrames with
    | none => exact ⟨⟨q, h⟩, trivial⟩
    | some f =>
      obtain ⟨q, rfl, -⟩ := (hf ▸ h.chain).exists_cons
      dsimp only
      rw [wp_bind, wp_getFrame, wp_ite]
      refine ⟨fun ht => writeEndOfStream_wp hd h ht, fun ht => ?_⟩
      rw [wp_bind]
      refine wp_mono (writeVec_wp hd h ht) fun more w₁ h₁ => ?_
      cases more with
      | false => exact ⟨h₁, trivial⟩
      | true => exact wp_mono (ih w₁ h₁) fun _ _ hw => ⟨hw.1, trivial⟩

theorem keeps_writeReal (hd : d.Preserves (· ≠ .abort .writeQueueLength) Inv Unrelated) :
    Keeps (writeReal env d) :=
  preserves_getSocket_bind fun w h => Preserves.ite _ (fun _ => keeps_throw (by simp))
    (fun _ => Preserves.ite _ (fun _ => keeps_throw (by simp)) fun _ => keeps_writeLoop hd _) w h

theorem keeps_onWriteEvent (hd : d.Preserves (· ≠ .abort .writeQueueLength) Inv Unrelated) :
    Keeps (onWriteEvent env d) := by
  refine preserves_getSocket_bind fun w h => Preserves.ite _ (fun _ => keeps_throw (by simp))
    (fun _ => (keeps_modifySocket fun s => ?_).bind fun _ => Preserves.ite _ (fun _ =>
      (keeps_modifySocket fun s => ?_).bind fun _ => (keeps_writeReal hd).bind fun _ =>
        preserves_getSocket_bind fun w h => Preserves.when _ (fun _ => ?_) w h) fun _ => ?_) w h
  · exact ⟨rfl, rfl, id, rfl, rfl⟩
  · exact ⟨rfl, rfl, id, rfl, rfl⟩
  all_goals exact keeps_modifySocket fun s => beside_writeUnsetEvent _ s

/-- A user writes a frame. -/
theorem write_wp (hd : d.Preserves (· ≠ .abort .writeQueueLength) Inv Unrelated) (h : Inv w)
    (hf : w.owner f = .user) :
    wp (· ≠ .abort .writeQueueLength) (Stream.write env d f)
      (fun _ w' => Inv w' ∧ Unrelated w w') w := by
  rw [Stream.write, wp_bind, wp_getSocket, wp_ite]
  refine ⟨fun _ => ⟨h, trivial⟩, fun ho => ?_⟩
  obtain ⟨q, hq⟩ := h
  have h₁ : Inv (queued w f) := ⟨_, hq.queued (by simpa using ho) hf⟩
  have hset := keeps_modifySocket (π := π) (beside_writeSetEvent {WRITE_WANT_WRITE})
  rw [wp_bind, wp_enqueueFrame]
  exact Preserves.ite _ (fun _ => (Preserves.when _ fun _ => hset).bind fun _ => preserves_pure _)
    (fun _ => (keeps_writeReal hd).bind fun _ => preserves_pure _) _ h₁

/-- A frame of the pool is in no write queue. -/
theorem poolBorrow_wp (ctx : Context) (type : FrameType) (file : String) (line : ℕ) (h : Inv w) :
    wp (· ≠ .abort .writeQueueLength) (poolBorrow ctx type file line) (fun r w' => Inv w' ∧
      ∀ f, r = some f → w'.owner f = .user) w := by
  have h₁ : Inv w.tick := h.imp fun _ => Counted.tick
  rw [poolBorrow, wp_bind, wp_ask, wp_bind, wp_get]
  cases ctx.framePool w.clock with
  | none => exact ⟨h₁, by rintro _ ⟨⟩⟩
  | some f =>
    dsimp only
    rw [wp_ite]
    refine ⟨fun ho => ?_, fun _ => ⟨h₁, by rintro _ ⟨⟩⟩⟩
    obtain ⟨q, hq⟩ := h₁
    have hf : f ∉ q := hq.not_mem (by rw [ho]; rintro ⟨⟩)
    refine ⟨⟨q, (hq.setFrame fun hm => absurd hm hf).setOwner hf⟩, fun g hg => ?_⟩
    obtain rfl := Option.some.inj hg
    simp

theorem keeps_cntlWriteShutdown (hd : d.Preserves (· ≠ .abort .writeQueueLength) Inv Unrelated) :
    Keeps (cntlWriteShutdown env d) := by
  refine preserves_getSocket_bind fun w h => Preserves.ite _ (fun _ => preserves_pure _)
    (fun _ => Preserves.ite _ (fun _ => preserves_pure _) fun _ => ?_) w h
  intro w h
  rw [wp_bind]
  refine wp_mono (poolBorrow_wp env.toContext _ _ _ h) ?_
  rintro r w₁ ⟨h₁, ho⟩
  cases r with
  | none => exact ⟨h₁, trivial⟩
  | some f =>
    have h₂ : Inv (w₁.record (.obtained f)) := h₁.imp fun _ hq => hq.record rfl
    dsimp only
    rw [wp_bind, wp_record]
    exact wp_mono (write_wp hd h₂ (ho f rfl)) fun _ _ hw => ⟨hw.1, trivial⟩

theorem keeps_onConnectEvent (hd : d.Preserves (· ≠ .abort .writeQueueLength) Inv Unrelated) :
    Keeps (onConnectEvent env d) := by
  refine preserves_getSocket_bind fun w h => Preserves.ite _ (fun _ => keeps_throw (by simp))
    (fun _ => (keeps_ask env.soError).bind fun r => ?_) w h
  have hssl : w.socket.ssl = false := h.choose_spec.ssl
  cases r with
  | unknown => exact preserves_pure _
  | error e => exact keeps_error hd.error _ 0
  | none =>
    refine (keeps_modifySocket fun s => beside_writeUnsetEvent _ s).bind fun _ => ?_
    simp only [hssl, Bool.false_eq_true, if_false]
    refine Preserves.bind (m := cntlStart) ?_ fun _ => ?_
    · refine keeps_modifySocket (g := started) fun s => ?_
      rw [started, writeSetEvent_eq, readSetEvent_eq]
      exact ⟨rfl, rfl, id, rfl, rfl⟩
    · refine (keeps_modifySocket fun s => ?_).bind fun _ => (keeps_record rfl).bind fun _ =>
        hd.connected.bind fun _ => keeps_onWriteEvent hd
      exact ⟨rfl, rfl, id, rfl, rfl⟩

theorem keeps_onWriteReady (hd : d.Preserves (· ≠ .abort .writeQueueLength) Inv Unrelated) :
    Keeps (onWriteReady env d) := by
  refine preserves_getSocket_bind fun w h => ((Preserves.when _ fun _ => keeps_onWriteEvent hd).bind
    fun _ => preserves_getSocket_bind fun w h => ?_) w h
  rw [wp_when]
  exact ⟨fun hs => by simp [h.choose_spec.ssl] at hs, fun _ => ⟨h, trivial⟩⟩

theorem keeps_onWrite (hd : d.Preserves (· ≠ .abort .writeQueueLength) Inv Unrelated) :
    Keeps (onWrite env d) :=
  preserves_getSocket_bind fun w h => ((Preserves.when _ fun _ => keeps_onConnectEvent hd).bind
    fun _ => keeps_onWriteReady hd) w h

end Functions

section Runs

/-- Runs of writes, write shutdowns and write events, with users working on their own frames. -/
def QueueRun (_ : World Stream π) : Event → Prop
  | .call (.cntl codes) => codes = {.WRITE_SHUTDOWN}
  | .call (.write _) | .call (.borrow _) | .call (.frameReturn _) | .call (.fill ..)
  | .write => True
  | _ => False

instance (w : World Stream π) : (e : Event) → Decidable (QueueRun w e)
  | .call (.cntl codes) => inferInstanceAs (Decidable (codes = {.WRITE_SHUTDOWN}))
  | .call (.write _) | .call (.borrow _) | .call (.frameReturn _) | .call (.fill ..) | .write =>
    inferInstanceAs (Decidable True)
  | .call (.enableSsl _) | .call (.setPartial _) | .read | .error =>
    inferInstanceAs (Decidable False)

variable (env : Env) {d : Delegate π}

theorem keeps_call (hd : d.Preserves (· ≠ .abort .writeQueueLength) Inv Unrelated) (c : Call) :
    Keeps (c.exec env d QueueRun) := by
  refine preserves_get_bind fun w h => ?_
  rw [wp_when]
  refine ⟨?_, fun _ => ⟨h, trivial⟩⟩
  rintro ⟨hperm, hrun⟩
  cases c with
  | write f =>
    rw [Call.perform, wp_bind]
    exact wp_mono (write_wp hd h hperm) fun _ _ hw => hw
  | cntl codes =>
    obtain rfl : codes = {.WRITE_SHUTDOWN} := hrun
    rw [Call.perform, wp_bind, cntl, Cntl.filter_singleton, cntlCodes, wp_bind]
    exact wp_mono (keeps_cntlWriteShutdown hd w h) fun _ _ hw => hw
  | borrow type =>
    rw [Call.perform, wp_bind]
    exact wp_mono (poolBorrow_wp env.toContext _ _ _ h) fun _ _ hw => ⟨hw.1, trivial⟩
  | frameReturn f =>
    obtain ⟨q, hq⟩ := h
    have ho : w.owner f = .user := hperm
    exact frameReturn_wp env.toContext hq (hq.not_mem (by simp [ho]))
  | fill f type vecs vecPosition data =>
    obtain ⟨q, hq⟩ := h
    have ho : w.owner f = .user := hperm.1
    rw [Call.perform, wp_bind, wp_getFrame, wp_setFrame]
    exact ⟨⟨q, hq.setFrame fun hm => absurd hm (hq.not_mem (by simp [ho]))⟩, trivial⟩
  | enableSsl r => exact hrun.elim
  | setPartial b => exact hrun.elim

theorem keeps_event (hd : d.Preserves (· ≠ .abort .writeQueueLength) Inv Unrelated) (e : Event) :
    Keeps (e.exec env d QueueRun) := by
  cases e with
  | call c => exact keeps_call env hd c
  | write => exact preserves_get_bind fun w h => Preserves.when _ (fun _ => keeps_onWrite hd) w h
  | read => exact preserves_get_bind fun w h => Preserves.when _ (fun hc => hc.2.elim) w h
  | error => exact preserves_get_bind fun w h => Preserves.when _ (fun hc => hc.2.elim) w h

theorem counted_init (o : Opening) (proto : π) (data : FrameId → ℕ → UInt8) :
    Counted (World.init (opened o) proto data) [] := by
  have hsocket : (opened o).writeFrames = none ∧ (opened o).writeFrameLast = .head ∧
      (opened o).ssl = false ∧ (opened o).writeQueueLength = 0 := by
    cases o <;> simp [opened, writeSetEvent_eq, readSetEvent_eq, Stream.init]
  obtain ⟨hframes, hlast, hssl, hlength⟩ := hsocket
  exact ⟨hframes, fun _ => hlast, by rintro _ ⟨⟩, by rintro _ ⟨⟩, hssl, hlength⟩

theorem keeps_scripted (script : Script) (n : ℕ) :
    (scripted (π := π) env QueueRun script n).Preserves (· ≠ .abort .writeQueueLength) Inv
      Unrelated := by
  refine scripted_preserves (fun w h => ⟨h.imp fun _ => Counted.tick, trivial⟩)
    (fun w f data vecs vecPosition h ho => ?_) (fun d hd c => keeps_call env hd c) n
  obtain ⟨q, hq⟩ := h
  exact ⟨⟨q, hq.setFrame fun _ => ⟨rfl, rfl⟩⟩, trivial⟩

/-- In every run the assertion before a decrement holds. The counter is the length of the write
queue exactly while every end-of-stream frame that was accepted still waits in it. -/
theorem run_counts_iff (script : Script) (n : ℕ) (o : Opening) (proto : π)
    (data : FrameId → ℕ → UInt8) (events : List Event) :
    wp (· ≠ .abort .writeQueueLength) (run env (scripted env QueueRun script n) QueueRun events)
      (fun _ w => ∃ q, Chain w.next w.socket.writeFrames q ∧
        (w.socket.writeQueueLength = q.length ↔ ends w q = acceptedEnds w))
      (World.init (opened o) proto data) := by
  have hd := keeps_scripted (π := π) env script n
  refine wp_mono (preserves_forM (fun e _ => keeps_event env hd e) _
    ⟨[], counted_init o proto data⟩) ?_
  rintro _ w ⟨⟨q, hq⟩, _⟩
  refine ⟨q, hq.chain, ?_⟩
  have hcount := hq.count
  omega

/-- After the end-of-stream frame was written the queue is empty, and its length is counted as
one. -/
theorem not_run_counts : ¬∀ (env : Env) (script : Script) (n : ℕ) (o : Opening)
    (data : FrameId → ℕ → UInt8) (events : List Event),
    wp (· ≠ .abort .writeQueueLength) (run env (scripted env QueueRun script n) QueueRun events)
      (fun _ w => ∃ q, Chain w.next w.socket.writeFrames q ∧ w.socket.writeQueueLength = q.length)
      (World.init (opened o) () data) := by
  intro h
  have hrun := h { idleEnv with framePool := fun _ => some ⟨0, 0⟩ } idleScript 0 .accept
    (fun _ _ => 0) [.call (.cntl {.WRITE_SHUTDOWN}), .write]
  obtain ⟨_, w, ⟨q, hq, hlength⟩, hw⟩ := wp_observe hrun
    (g := fun r => (r.2.socket.writeFrames, r.2.socket.writeQueueLength)) (b := (none, 1)) rfl
  obtain ⟨hframes, hone⟩ := Prod.mk.inj hw
  obtain rfl : q = [] := Chain.eq_nil (hframes ▸ hq)
  have hone : w.socket.writeQueueLength = 1 := hone
  rw [hone] at hlength
  exact absurd hlength (by decide)

end Runs

end Stream.QueueLength

end FrameTransporter
