import FrameTransporter.Sock.Stream.Run
import FrameTransporter.Mempool.Ownership

/-! # The write queue sends what it accepts

On a plain stream the bytes that were sent, followed by the bytes that wait in the
queue, are the bytes that were accepted. Each send and each change of the queue
keeps this equation, at every exit of the write loop and across writes that the
delegate makes while a frame is given back.
-/

namespace FrameTransporter

open Hoare Intrusive

/-- The bytes to send for a frame of the given type. An end-of-stream frame has none. -/
def dataOnly (type : FrameType) (bytes : List UInt8) : List UInt8 :=
  if type = .endOfStream then [] else bytes

namespace Frame

variable {x : Frame} {v : Vec} {rest : List Vec} {n : ℕ}

/-- The bytes that the write queue is to send for a frame. -/
def payload (x : Frame) : List UInt8 := dataOnly x.type x.pendingBytes

/-- A frame that the write loop can process to its end. -/
def Writable (x : Frame) : Prop :=
  x.type = .endOfStream ∨
    (x.vecs.drop x.vecPosition ≠ [] ∧ ∀ v ∈ x.vecs.drop x.vecPosition, v.position < v.limit)

theorem Writable.cursor (h : x.Writable) (ht : x.type ≠ .endOfStream) :
    ∃ v rest, x.vecs.drop x.vecPosition = v :: rest ∧ v.position < v.limit := by
  obtain ⟨hne, hv⟩ := h.resolve_left ht
  obtain ⟨v, rest, hd⟩ := List.exists_cons_of_ne_nil hne
  exact ⟨v, rest, hd, hv v (by simp [hd])⟩

theorem payload_of_ne (ht : x.type ≠ .endOfStream) : x.payload = x.pendingBytes := by
  simp [payload, dataOnly, ht]

theorem pendingBytes_advanced (hv : x.vecs.drop x.vecPosition = v :: rest)
    (hn : v.position + n ≤ v.limit) :
    x.pendingBytes = slice x.data (v.offset + v.position) n ++ (x.advanced v n).pendingBytes := by
  have hs : v.limit - v.position = n + (v.limit - (v.position + n)) := by omega
  have hd : (x.advanced v n).vecs.drop (x.advanced v n).vecPosition = _ := drop_advanced hv
  rw [pendingBytes, pendingBytes, hv, hd, List.flatMap_cons, List.flatMap_cons, remainingBytes, hs,
    slice_add, List.append_assoc, remainingBytes, Nat.add_assoc]
  rfl

/-- The frame after the vector under its cursor was written to its end. -/
def passed (x : Frame) (v : Vec) (n : ℕ) : Frame :=
  { x.advanced v n with vecPosition := x.vecPosition + 1 }

theorem drop_passed (hv : x.vecs.drop x.vecPosition = v :: rest) :
    (x.passed v n).vecs.drop (x.passed v n).vecPosition = rest :=
  drop_succ (x := x.advanced v n) (drop_advanced hv)

theorem pendingBytes_passed (hv : x.vecs.drop x.vecPosition = v :: rest)
    (hn : v.position + n = v.limit) :
    x.pendingBytes = slice x.data (v.offset + v.position) n ++ (x.passed v n).pendingBytes := by
  have hs : v.limit - v.position = n := by omega
  rw [pendingBytes, pendingBytes, hv, drop_passed hv, List.flatMap_cons, remainingBytes, hs]
  rfl

theorem Writable.advanced (h : x.Writable) (hv : x.vecs.drop x.vecPosition = v :: rest)
    (hn : v.position + n < v.limit) : (x.advanced v n).Writable := by
  refine h.imp id ?_
  rintro ⟨_, hall⟩
  have hd : (x.advanced v n).vecs.drop (x.advanced v n).vecPosition = _ := drop_advanced hv
  rw [hd]
  refine ⟨by simp, fun u hu => ?_⟩
  rcases List.mem_cons.mp hu with rfl | hu
  · exact hn
  · exact hall u (by simp [hv, hu])

theorem Writable.passed (h : x.Writable) (hv : x.vecs.drop x.vecPosition = v :: rest)
    (hrest : rest ≠ []) : (x.passed v n).Writable := by
  refine h.imp id ?_
  rintro ⟨_, hall⟩
  rw [drop_passed hv]
  exact ⟨hrest, fun u hu => hall u (by simp [hv, hu])⟩

end Frame

namespace Stream

section Trace

variable {pay : FrameType → List UInt8 → List UInt8} {t : List Io} {x : Io}

/-- The bytes that `send` took, in order. -/
def sentBytes (t : List Io) : List UInt8 :=
  t.flatMap fun
    | .send bytes => bytes
    | _ => []

/-- What `pay` counts of the frames that `ft_stream_write` accepted, in order. -/
def acceptedBytes (pay : FrameType → List UInt8 → List UInt8) (t : List Io) : List UInt8 :=
  t.flatMap fun
    | .accepted _ type bytes => pay type bytes
    | _ => []

/-- The write side is shut down at most once, when everything accepted has been sent. -/
def ShutdownOnce (pay : FrameType → List UInt8 → List UInt8) (t : List Io) : Prop :=
  ∀ pre post, t = pre ++ .shutdown .SHUT_WR :: post →
    sentBytes pre = acceptedBytes pay pre ∧ .shutdown .SHUT_WR ∉ post

@[simp] theorem sentBytes_append (t u : List Io) :
    sentBytes (t ++ u) = sentBytes t ++ sentBytes u := List.flatMap_append

@[simp] theorem acceptedBytes_append (t u : List Io) :
    acceptedBytes pay (t ++ u) = acceptedBytes pay t ++ acceptedBytes pay u := List.flatMap_append

theorem ShutdownOnce.append (h : ShutdownOnce pay t) (hx : x ≠ .shutdown .SHUT_WR) :
    ShutdownOnce pay (t ++ [x]) := by
  intro pre post ht
  rcases post.eq_nil_or_concat with rfl | ⟨post, y, rfl⟩
  · obtain ⟨-, hy⟩ := List.append_inj' ht rfl
    exact absurd (List.cons.inj hy).1 hx
  · have ht : t ++ [x] = (pre ++ .shutdown .SHUT_WR :: post) ++ [y] := by simpa using ht
    obtain ⟨ht, hy⟩ := List.append_inj' ht rfl
    obtain ⟨hs, hp⟩ := h pre post ht
    refine ⟨hs, fun hm => ?_⟩
    rw [List.concat_eq_append, List.mem_append, List.mem_singleton] at hm
    rcases hm with hm | hm
    · exact hp hm
    · exact hx ((List.cons.inj hy).1.trans hm.symm)

theorem ShutdownOnce.close (ht : .shutdown .SHUT_WR ∉ t) (hs : sentBytes t = acceptedBytes pay t) :
    ShutdownOnce pay (t ++ [.shutdown .SHUT_WR]) := by
  intro pre post he
  rcases post.eq_nil_or_concat with rfl | ⟨post, y, rfl⟩
  · obtain ⟨rfl, -⟩ := List.append_inj' he rfl
    exact ⟨hs, by simp⟩
  · have he : t ++ [.shutdown .SHUT_WR] = (pre ++ .shutdown .SHUT_WR :: post) ++ [y] := by
      simpa using he
    obtain ⟨rfl, -⟩ := List.append_inj' he rfl
    exact absurd (by simp) ht

end Trace

variable {π : Type}

/-- What was sent and what waits in the queue is what was accepted. -/
structure InOrder (pay : FrameType → List UInt8 → List UInt8) (w : World Stream π) : Prop where
  queue : ∃ q, Chain w.next w.socket.writeFrames q ∧
    sentBytes w.trace ++ q.flatMap (fun f => pay (w.heap f).type (w.heap f).pendingBytes) =
      acceptedBytes pay w.trace
  shutdown : ShutdownOnce pay w.trace

section Invariant

open WriteEvent

variable {w : World Stream π} {q : List FrameId} {f : FrameId} {x : Frame} {s : Stream}

/-- The state of a stream without TLS: it does not write before it is connected. -/
structure Plain (s : Stream) : Prop where
  ssl : s.ssl = false
  sslStatus : s.sslStatus = 0
  ready : s.connecting = true → s.writeReady = false
  want : s.connecting = true → WRITE_WANT_WRITE ∉ s.writeEvents
  connect : CONNECT_WANT_WRITE ∈ s.writeEvents → s.connecting = true

/-- The write queue holds the listed frames. -/
structure QueueInv (w : World Stream π) (q : List FrameId) : Prop where
  chain : Chain w.next w.socket.writeFrames q
  last : w.socket.writeOpen = true → w.socket.writeFrameLast = Link.last q
  owner : ∀ f ∈ q, w.owner f = .writer
  writable : ∀ f ∈ q, (w.heap f).Writable
  closed : ∀ f ∈ q, (w.heap f).type = .endOfStream →
    w.socket.writeOpen = false ∧ ∃ pre, q = pre ++ [f]
  bytes : sentBytes w.trace ++ q.flatMap (fun f => (w.heap f).payload) =
    acceptedBytes dataOnly w.trace
  length : q.length ≤ w.socket.writeQueueLength
  live : ∀ f, w.owner f ≠ .pool → Pool.Live (w.heap f)
  shutdown : ShutdownOnce dataOnly w.trace
  done : .shutdown .SHUT_WR ∈ w.trace → q = [] ∧ w.socket.writeOpen = false

def WriteInv (w : World Stream π) : Prop := Plain w.socket ∧ ∃ q, QueueInv w q

/-- What no call undoes: the write side stays closed, the connection stays up, and a closed and
empty write side is left alone. -/
structure Later (w w' : World Stream π) : Prop where
  closed : w.socket.writeOpen = false → w'.socket.writeOpen = false
  connected : w.socket.connecting = false → w'.socket.connecting = false
  empty : w.socket.writeOpen = false → w.socket.writeFrames = none →
    w'.socket.writeFrames = none ∧
      (.shutdown .SHUT_WR ∈ w'.trace → .shutdown .SHUT_WR ∈ w.trace)

instance : IsPreorder (World Stream π) Later where
  refl _ := ⟨id, id, fun _ hf => ⟨hf, id⟩⟩
  trans _ _ _ h h' := ⟨h'.closed ∘ h.closed, h'.connected ∘ h.connected, fun ho hf =>
    ⟨(h'.empty (h.closed ho) (h.empty ho hf).1).1,
      (h.empty ho hf).2 ∘ (h'.empty (h.closed ho) (h.empty ho hf).1).2⟩⟩

theorem QueueInv.not_mem (h : QueueInv w q) (ho : w.owner f ≠ .writer) : f ∉ q :=
  fun hf => ho (h.owner f hf)

theorem QueueInv.tick (h : QueueInv w q) : QueueInv w.tick q := { h with }

/-- An entry of the trace that the write queue has no part in. -/
def Silent (x : Io) : Prop :=
  sentBytes [x] = [] ∧ acceptedBytes dataOnly [x] = [] ∧ x ≠ .shutdown .SHUT_WR

theorem QueueInv.record {x : Io} (h : QueueInv w q) (hx : Silent x) : QueueInv (w.record x) q where
  __ := h
  bytes := by simpa [hx.1, hx.2.1] using h.bytes
  shutdown := h.shutdown.append hx.2.2
  done hm := h.done (by simpa [hx.2.2.symm] using hm)

/-- Frames outside the queue may change, as long as frames in use stay live. -/
theorem QueueInv.setFrame (h : QueueInv w q) (hf : f ∉ q)
    (hx : w.owner f ≠ .pool → Pool.Live x) : QueueInv (w.setFrame f x) q := by
  have hne : ∀ g ∈ q, g ≠ f := fun g hg e => hf (e ▸ hg)
  have heq : ∀ g ∈ q, (w.setFrame f x).heap g = w.heap g := fun g hg => by simp [hne g hg]
  constructor
  case chain => exact h.chain.congr fun g hg => by rw [World.next, World.next, heq g hg]
  case last => exact h.last
  case owner => exact h.owner
  case writable => exact fun g hg => heq g hg ▸ h.writable g hg
  case closed => exact fun g hg => heq g hg ▸ h.closed g hg
  case bytes =>
    have hp : q.flatMap (fun g => ((w.setFrame f x).heap g).payload) =
        q.flatMap fun g => (w.heap g).payload := List.flatMap_congr fun g hg => by rw [heq g hg]
    exact hp ▸ h.bytes
  case length => exact h.length
  case live =>
    intro g hg
    by_cases e : g = f
    · subst e; simpa using hx hg
    · simpa [e] using h.live g hg
  case shutdown => exact h.shutdown
  case done => exact h.done

theorem QueueInv.setOwner {o : Owner} (h : QueueInv w q) (hf : f ∉ q)
    (ho : o ≠ .pool → Pool.Live (w.heap f)) : QueueInv (w.setOwner f o) q where
  __ := h
  owner g hg := by
    have hne : g ≠ f := fun e => hf (e ▸ hg)
    simpa [hne] using h.owner g hg
  live g hg := by
    by_cases e : g = f
    · subst e; exact ho (by simpa using hg)
    · exact h.live g (by simpa [e] using hg)

/-- A change of the socket that leaves the write queue alone, and does not open it again. -/
structure SameQueue (s s' : Stream) : Prop where
  writeFrames : s'.writeFrames = s.writeFrames
  writeFrameLast : s'.writeFrameLast = s.writeFrameLast
  writeOpen : s.writeOpen = false → s'.writeOpen = false
  writeQueueLength : s'.writeQueueLength = s.writeQueueLength

theorem QueueInv.setSocket (h : QueueInv w q) (hs : SameQueue w.socket s) :
    QueueInv (w.setSocket s) q where
  __ := h
  chain := hs.writeFrames ▸ h.chain
  last ho := hs.writeFrameLast.trans (h.last (by
    by_contra hc
    simp [hs.writeOpen (Bool.not_eq_true _ ▸ hc)] at ho))
  closed f hf ht := ⟨hs.writeOpen (h.closed f hf ht).1, (h.closed f hf ht).2⟩
  length := hs.writeQueueLength ▸ h.length
  done hm := ⟨(h.done hm).1, hs.writeOpen (h.done hm).2⟩

/-- A change of the socket beside the write queue. -/
structure Control (s s' : Stream) : Prop extends SameQueue s s' where
  plain : Plain s'
  connected : s.connecting = false → s'.connecting = false

theorem WriteInv.setSocket (h : WriteInv w) (hs : Control w.socket s) :
    WriteInv (w.setSocket s) ∧ Later w (w.setSocket s) := by
  obtain ⟨-, q, hq⟩ := h
  refine ⟨⟨hs.plain, q, hq.setSocket hs.toSameQueue⟩, hs.writeOpen, hs.connected, fun _ hf => ?_⟩
  exact ⟨hs.writeFrames.trans hf, id⟩

theorem WriteInv.tick (h : WriteInv w) : WriteInv w.tick ∧ Later w w.tick :=
  ⟨⟨h.1, h.2.imp fun _ => QueueInv.tick⟩, id, id, fun _ hf => ⟨hf, id⟩⟩

theorem WriteInv.record {y : Io} (h : WriteInv w) (hy : Silent y) :
    WriteInv (w.record y) ∧ Later w (w.record y) := by
  refine ⟨⟨h.1, h.2.imp fun _ hq => hq.record hy⟩, id, id, fun _ hf => ⟨hf, fun hm => ?_⟩⟩
  simpa [hy.2.2.symm] using hm

theorem WriteInv.setFrame (h : WriteInv w) (ho : w.owner f ≠ .writer)
    (hx : w.owner f ≠ .pool → Pool.Live x) : WriteInv (w.setFrame f x) ∧ Later w (w.setFrame f x) :=
  ⟨⟨h.1, h.2.imp fun _ hq => hq.setFrame (hq.not_mem ho) hx⟩, id, id, fun _ hf => ⟨hf, id⟩⟩

theorem WriteInv.setOwner {o : Owner} (h : WriteInv w) (hf : w.owner f ≠ .writer)
    (ho : o ≠ .pool → Pool.Live (w.heap f)) :
    WriteInv (w.setOwner f o) ∧ Later w (w.setOwner f o) :=
  ⟨⟨h.1, h.2.imp fun _ hq => hq.setOwner (hq.not_mem hf) ho⟩, id, id, fun _ hf => ⟨hf, id⟩⟩

end Invariant

section Control

open WriteEvent

variable {s : Stream}

theorem control_readSetEvent (h : Plain s) (e : Finset ReadEvent) :
    Control s (readSetEvent e s) := by
  rw [readSetEvent_eq]
  exact ⟨⟨rfl, rfl, id, rfl⟩, { h with }, id⟩

theorem control_writeUnsetEvent (h : Plain s) (e : Finset WriteEvent) :
    Control s (writeUnsetEvent e s) := by
  have hsub : ∀ a, a ∈ s.writeEvents \ e → a ∈ s.writeEvents := fun a ha =>
    (Finset.mem_sdiff.mp ha).1
  rw [writeUnsetEvent_eq]
  exact ⟨⟨rfl, rfl, id, rfl⟩,
    { h with
      want := fun hc hm => h.want hc (hsub _ hm), connect := fun hm => h.connect (hsub _ hm) },
    id⟩

/-- Waiting to write while connected. -/
theorem control_writeSetEvent (h : Plain s) (hc : s.connecting = false) :
    Control s (writeSetEvent {WRITE_WANT_WRITE} s) := by
  have hno : s.connecting = true → WRITE_WANT_WRITE ∉ s.writeEvents ∪ {WRITE_WANT_WRITE} :=
    fun ht => by simp [hc] at ht
  rw [writeSetEvent_eq]
  exact ⟨⟨rfl, rfl, id, rfl⟩,
    { h with want := hno, connect := fun hm => h.connect (by simpa using hm) }, id⟩

theorem control_awaitWrite (h : Plain s) (hc : s.connecting = false) :
    Control s (awaitWrite s) := by
  obtain ⟨⟨a, b, c, d⟩, hp, hcon⟩ :=
    control_writeSetEvent (s := { s with writeReady := false }) { h with ready := fun _ => rfl } hc
  exact ⟨⟨a, b, c, d⟩, hp, hcon⟩

end Control

section Functions

open WriteEvent

variable (env : Env) {d : Delegate π} {E : Fault → Prop} {w : World Stream π} {f : FrameId}

theorem preserves_tick {α : Type} {r : ℕ → α} :
    Preserves E WriteInv Later (ask (σ := Stream) (π := π) r) := fun _ h => h.tick

theorem preserves_record {x : Io} (hx : Silent x) :
    Preserves E WriteInv Later (FrameTransporter.record (σ := Stream) (π := π) x) :=
  fun _ h => h.record hx

theorem preserves_getSocket : Preserves E WriteInv Later (getSocket (σ := Stream) (π := π)) :=
  fun w h => ⟨h, refl_of Later w⟩

theorem preserves_control {g : Stream → Stream} (hg : ∀ s, Plain s → Control s (g s)) :
    Preserves E WriteInv Later (modifySocket (π := π) g) :=
  fun w h => h.setSocket (hg w.socket h.1)

theorem preserves_error (hd : d.Preserves E WriteInv Later) (e : Errno) :
    Preserves E WriteInv Later (Stream.error env d (some e) 0) := by
  rw [Stream.error, if_neg (by simp)]
  refine preserves_tick.bind fun now => ?_
  refine (preserves_control fun s h => ?_).bind fun _ => ?_
  · exact ⟨⟨rfl, rfl, fun _ => rfl, rfl⟩, ⟨h.ssl, h.sslStatus, h.ready, h.want, h.connect⟩, id⟩
  refine preserves_getSocket.bind fun s => ?_
  refine (preserves_record ⟨rfl, rfl, by simp⟩).bind fun _ => hd.error.bind fun _ => ?_
  refine (preserves_control fun s h => ?_).bind fun _ => (preserves_control fun s h => ?_).bind
    fun _ => preserves_record ⟨rfl, rfl, by simp⟩
  all_goals
    exact ⟨⟨rfl, rfl, id, rfl⟩, ⟨h.ssl, h.sslStatus, h.ready, h.want, h.connect⟩, id⟩

/-- A frame in use goes back to the pool. -/
theorem frameReturn_wp (ctx : Context) (h : WriteInv w) (ho : w.owner f = .user) :
    wp E (frameReturn ctx f) (fun _ w' => WriteInv w' ∧ Later w w') w := by
  obtain ⟨ht, hfile, hline⟩ := h.2.choose_spec.live f (by simp [ho])
  simp only [frameReturn, wp_bind, wp_getFrame, if_neg ht, if_neg hfile, if_neg hline, wp_ask,
    wp_setFrame, wp_setOwner, wp_record]
  -- the header is only invalid once the pool owns the frame
  obtain ⟨h₁, l₁⟩ := h.tick
  obtain ⟨h₂, l₂⟩ := h₁.setOwner (f := f) (o := .pool) (by simp [ho]) (by simp)
  obtain ⟨h₃, l₃⟩ := h₂.setFrame (f := f) (x := { w.heap f with
    type := .free, next := ctx.availableFrames w.clock, lastSeenByFile := none,
    lastSeenByLine := 0 }) (by simp) (by simp)
  obtain ⟨h₄, l₄⟩ := h₃.record (y := .frameReturn f) ⟨rfl, rfl, by simp⟩
  exact ⟨h₄, trans_of Later l₁ (trans_of Later l₂ (trans_of Later l₃ l₄))⟩

/-- A frame that left the queue is given back. -/
theorem releaseFrame_wp (hd : d.Preserves E WriteInv Later) (side : Char) {q : List FrameId}
    (hp : Plain w.socket) (hq : QueueInv w q) (hf : f ∉ q) (hl : Pool.Live (w.heap f)) :
    wp E (releaseFrame env d f side) (fun _ w' => WriteInv w' ∧ Later w w') w := by
  have h₁ : WriteInv (w.setOwner f .user) := ⟨hp, q, hq.setOwner hf fun _ => hl⟩
  obtain ⟨h₂, l₂⟩ := h₁.record (y := .release f side) ⟨rfl, rfl, by simp⟩
  have l : Later w ((w.setOwner f .user).record (.release f side)) :=
    ⟨l₂.closed, l₂.connected, l₂.empty⟩
  rw [releaseFrame, wp_bind, wp_setOwner, wp_bind, wp_record]
  cases hg : d.frameReturn with
  | none =>
    refine wp_mono (frameReturn_wp env.toContext h₂ (by simp)) fun _ w' h' => ?_
    exact ⟨h'.1, trans_of Later l h'.2⟩
  | some g =>
    refine wp_mono (hd.frameReturn g hg f side _ h₂) fun _ w' h' => ?_
    exact ⟨h'.1, trans_of Later l h'.2⟩

/-- With an empty queue and nothing left to accept, everything accepted has been sent. -/
theorem WriteInv.shutdown (h : WriteInv w) (ho : w.socket.writeOpen = false)
    (hf : w.socket.writeFrames = none) (hno : .shutdown .SHUT_WR ∉ w.trace) :
    WriteInv (w.record (.shutdown .SHUT_WR)) := by
  obtain ⟨hp, q, hq⟩ := h
  obtain rfl : q = [] := Chain.eq_nil (hf ▸ hq.chain)
  have hb : sentBytes w.trace = acceptedBytes dataOnly w.trace := by simpa using hq.bytes
  refine ⟨hp, [], { hq with bytes := ?_, shutdown := ShutdownOnce.close hno hb, done := ?_ }⟩
  · simpa [sentBytes, acceptedBytes] using hb
  · exact fun _ => ⟨rfl, ho⟩

/-- The end-of-stream frame is the last of the queue. -/
theorem QueueInv.eq_nil {q : List FrameId} (hq : QueueInv w (f :: q))
    (ht : (w.heap f).type = .endOfStream) : q = [] ∧ w.socket.writeOpen = false := by
  obtain ⟨ho, pre, hpre⟩ := hq.closed f (by simp) ht
  refine ⟨?_, ho⟩
  cases pre with
  | nil => simpa using hpre
  | cons a pre =>
    have hm : f ∈ q := by simp [(List.cons.inj hpre).2]
    exact absurd hm (List.nodup_cons.mp hq.chain.nodup).1

/-- The write side shuts down with an empty queue and every byte sent. -/
theorem writeEndOfStream_wp (hd : d.Preserves E WriteInv Later) {q : List FrameId}
    (hp : Plain w.socket) (hq : QueueInv w (f :: q)) (ht : (w.heap f).type = .endOfStream) :
    wp E (writeEndOfStream env d f) (fun _ w' => WriteInv w' ∧ Later w w') w := by
  obtain ⟨rfl, ho⟩ := hq.eq_nil ht
  obtain ⟨hf, hnext⟩ := chain_cons.mp hq.chain
  have hnext : (w.heap f).next = none := hnext
  have hno : .shutdown .SHUT_WR ∉ w.trace := fun hm => by simpa using (hq.done hm).1
  let w₁ := w.setSocket { w.socket with writeFrames := (w.heap f).next }
  have hq₁ : QueueInv w₁ [] := by
    refine { hq with chain := hnext, last := ?_, owner := by simp, writable := by simp,
                     closed := by simp, bytes := ?_, length := by simp, done := fun _ => ⟨rfl, ho⟩ }
    · exact fun h => by simp [w₁, ho] at h
    · simpa [w₁, Frame.payload, dataOnly, ht] using hq.bytes
  have hlive : Pool.Live (w.heap f) := hq.live f (by simp [hq.owner f (by simp)])
  rw [writeEndOfStream, wp_bind, wp_getFrame, wp_bind, wp_modifySocket, wp_bind]
  refine wp_mono (releaseFrame_wp env hd 'W' (w := w₁) { hp with } hq₁ (by simp) hlive) ?_
  rintro _ w₂ ⟨h₂, l₂⟩
  have ho₂ : w₂.socket.writeOpen = false := l₂.closed ho
  obtain ⟨hf₂, hs₂⟩ := l₂.empty ho hnext
  simp only [wp_bind, wp_getSocket, ho₂, h₂.1.ssl, Bool.false_eq_true, if_false, wp_modifySocket,
    wp_ask, wp_record]
  obtain ⟨h₃, l₃⟩ := h₂.setSocket (control_writeUnsetEvent h₂.1 {WRITE_WANT_WRITE})
  obtain ⟨h₄, l₄⟩ := h₃.tick
  obtain ⟨h₅, l₅⟩ := h₄.setSocket (s := { writeUnsetEvent {WRITE_WANT_WRITE} w₂.socket with
      writeShutdownAt := some (env.evNow w₂.clock), writeShutdown := true })
    ⟨⟨rfl, rfl, id, rfl⟩, { h₄.1 with }, id⟩
  have l : Later w₂ _ := trans_of Later l₃ (trans_of Later l₄ l₅)
  obtain ⟨hf₅, hs₅⟩ := l.empty ho₂ hf₂
  refine ⟨h₅.shutdown (l.closed ho₂) hf₅ fun hm => hno (hs₂ (hs₅ hm)), ?_⟩
  exact ⟨fun _ => l.closed ho₂, fun hc => l.connected (l₂.connected hc),
    fun _ he => by simp [hf] at he⟩

/-- After a send that took nothing the write loop waits for the next event. -/
theorem WriteInv.await (h : WriteInv w) (hc : w.socket.connecting = false) :
    WriteInv ((w.tick.record (.send [])).setSocket (awaitWrite w.socket)) ∧
      Later w ((w.tick.record (.send [])).setSocket (awaitWrite w.socket)) := by
  obtain ⟨h₁, l₁⟩ := h.tick
  obtain ⟨h₂, l₂⟩ := h₁.record (y := .send []) ⟨rfl, rfl, by simp⟩
  obtain ⟨h₃, l₃⟩ := h₂.setSocket (control_awaitWrite h.1 hc)
  exact ⟨h₃, trans_of Later l₁ (trans_of Later l₂ l₃)⟩

/-- Either the write loop returns, or `send` took some bytes and nothing else happened. -/
theorem transmit_wp (hd : d.Preserves E WriteInv Later) (h : WriteInv w)
    (hc : w.socket.connecting = false) (bytes : List UInt8) :
    wp E (transmit env d bytes) (fun r w' =>
      match r with
      | none => WriteInv w' ∧ Later w w'
      | some n => n ≤ bytes.length ∧ w' = w.tick.record (.send (bytes.take n))) w := by
  rw [transmit, wp_bind, wp_getSocket, if_pos h.1.ssl, wp_bind, wp_ask]
  cases hr : env.send w.socket w.clock with
  | failed e =>
    have herr : wp E (Stream.error env d (some e) 0) (fun _ w' => WriteInv w' ∧ Later w w')
        (w.tick.record (.send [])) := by
      obtain ⟨h₁, l₁⟩ := h.tick
      obtain ⟨h₂, l₂⟩ := h₁.record (y := .send []) ⟨rfl, rfl, by simp⟩
      exact wp_mono (preserves_error env hd e _ h₂) fun _ w' h' =>
        ⟨h'.1, trans_of Later l₁ (trans_of Later l₂ h'.2)⟩
    cases e with
    | EAGAIN => exact h.await hc
    | _ => simpa using herr
  | sent n =>
    simp only [wp_bind, wp_record, wp_ite, wp_modifySocket, wp_pure]
    refine ⟨fun h0 => ?_, fun hn => ?_⟩
    · have ht : bytes.take n = [] := by
        rw [← List.length_eq_zero_iff, List.length_take, h0]
      rw [ht]
      exact h.await hc
    · refine ⟨min_le_right _ _, ?_⟩
      rw [← List.take_eq_take_min]

section Front

variable {q : List FrameId} {x : Frame} {bytes : List UInt8}

/-- The state after bytes of the front frame were sent, with its new vectors. -/
def sentFrom (w : World Stream π) (f : FrameId) (bytes : List UInt8) (x : Frame) :
    World Stream π :=
  (w.tick.record (.send bytes)).setFrame f x

theorem sentFrom_next (hnext : x.next = (w.heap f).next) (g : FrameId) :
    w.next g = (sentFrom w f bytes x).next g := by
  by_cases e : g = f
  · subst e; simp [sentFrom, World.next, hnext]
  · simp [sentFrom, World.next, e]

theorem sentFrom_payload (hf : f ∉ q) :
    q.flatMap (fun g => ((sentFrom w f bytes x).heap g).payload) =
      q.flatMap fun g => (w.heap g).payload :=
  List.flatMap_congr fun g hg => by
    have hne : g ≠ f := fun e => hf (e ▸ hg)
    simp [sentFrom, hne]

theorem QueueInv.sentFrom_live (hq : QueueInv w q) (hx : Pool.Live x) (g : FrameId)
    (hg : (sentFrom w f bytes x).owner g ≠ .pool) :
    Pool.Live ((sentFrom w f bytes x).heap g) := by
  by_cases e : g = f
  · subst e; simpa [sentFrom] using hx
  · simpa [sentFrom, e] using hq.live g hg

/-- The front frame has bytes left to send. -/
theorem QueueInv.progress (hq : QueueInv w (f :: q)) (hnext : x.next = (w.heap f).next)
    (ht : x.type = (w.heap f).type) (hlive : Pool.Live x) (hx : x.Writable)
    (hpay : (w.heap f).payload = bytes ++ x.payload) :
    QueueInv (sentFrom w f bytes x) (f :: q) := by
  have hf : f ∉ q := (List.nodup_cons.mp hq.chain.nodup).1
  have htype : ∀ g, ((sentFrom w f bytes x).heap g).type = (w.heap g).type := fun g => by
    by_cases e : g = f
    · subst e; simpa [sentFrom] using ht
    · simp [sentFrom, e]
  constructor
  case chain => exact hq.chain.congr fun g _ => sentFrom_next hnext g
  case last => exact hq.last
  case owner => exact hq.owner
  case writable =>
    intro g hg
    by_cases e : g = f
    · subst e; simpa [sentFrom] using hx
    · simpa [sentFrom, e] using hq.writable g hg
  case closed => exact fun g hg hgt => hq.closed g hg (htype g ▸ hgt)
  case bytes =>
    have hb := hq.bytes
    rw [List.flatMap_cons, hpay] at hb
    rw [List.flatMap_cons, sentFrom_payload hf]
    simpa [sentFrom, sentBytes, acceptedBytes] using hb
  case length => exact hq.length
  case live => exact hq.sentFrom_live hlive
  case shutdown => exact hq.shutdown.append (by simp)
  case done => exact fun hm => absurd (hq.done (by simpa [sentFrom] using hm)).1 (by simp)

/-- The front frame was sent to its end and leaves the queue. -/
theorem QueueInv.dequeue (hq : QueueInv w (f :: q)) (hnext : x.next = (w.heap f).next)
    (hlive : Pool.Live x) (hpay : (w.heap f).payload = bytes) :
    QueueInv ((sentFrom w f bytes x).setSocket { w.socket with
      writeQueueLength := w.socket.writeQueueLength - 1, writeFrames := x.next
      writeFrameLast := if x.next = none then .head else w.socket.writeFrameLast }) q := by
  obtain ⟨hf, hq'⟩ := List.nodup_cons.mp hq.chain.nodup
  have hw : ∀ g ∈ q, (sentFrom w f bytes x).heap g = w.heap g := fun g hg => by
    have hne : g ≠ f := fun e => hf (e ▸ hg)
    simp [sentFrom, hne]
  constructor
  case chain =>
    rw [World.setSocket_socket, hnext]
    exact (chain_cons.mp hq.chain).2.congr fun g _ => sentFrom_next hnext g
  case last =>
    intro ho
    have hlast := (Queue.mk hq.chain (hq.last ho)).dequeue.last_eq
    rw [World.setSocket_socket, hnext]
    exact hlast
  case owner => exact fun g hg => hq.owner g (List.mem_cons_of_mem _ hg)
  case writable =>
    intro g hg
    exact (hw g hg).symm ▸ hq.writable g (List.mem_cons_of_mem _ hg)
  case closed =>
    intro g hg hgt
    obtain ⟨ho, pre, hpre⟩ := hq.closed g (List.mem_cons_of_mem _ hg) (hw g hg ▸ hgt)
    cases pre with
    | nil => exact absurd ((List.cons.inj hpre).2 ▸ hg) (by simp)
    | cons a pre => exact ⟨ho, pre, (List.cons.inj hpre).2⟩
  case bytes =>
    have hb := hq.bytes
    rw [List.flatMap_cons, hpay] at hb
    change _ ++ q.flatMap (fun g => ((sentFrom w f bytes x).heap g).payload) = _
    rw [sentFrom_payload hf]
    simpa [sentFrom, sentBytes, acceptedBytes] using hb
  case length =>
    have := hq.length
    simp only [List.length_cons, World.setSocket_socket] at *
    omega
  case live => exact hq.sentFrom_live hlive
  case shutdown => exact hq.shutdown.append (by simp)
  case done => exact fun hm => absurd (hq.done (by simpa [sentFrom] using hm)).1 (by simp)

end Front

theorem Later.sentFrom {bytes : List UInt8} {x : Frame} : Later w (sentFrom w f bytes x) :=
  ⟨id, id, fun _ hf => ⟨hf, fun hm => by simpa [Stream.sentFrom] using hm⟩⟩

/-- A frame that was sent to its end is given back after it left the queue. -/
theorem dequeueFrame_wp (hd : d.Preserves E WriteInv Later) {q : List FrameId} {x : Frame}
    {bytes : List UInt8} (hp : Plain w.socket) (hq : QueueInv w (f :: q))
    (hnext : x.next = (w.heap f).next) (hlive : Pool.Live x)
    (hpay : (w.heap f).payload = bytes) :
    wp E (dequeueFrame env d f) (fun _ w' => WriteInv w' ∧ Later w w') (sentFrom w f bytes x) := by
  have hlen : ¬(sentFrom w f bytes x).socket.writeQueueLength = 0 := by
    have := hq.length
    simp only [List.length_cons] at this
    change ¬w.socket.writeQueueLength = 0
    omega
  have hx : (sentFrom w f bytes x).heap f = x := by simp [sentFrom]
  have hf : f ∉ q := (List.nodup_cons.mp hq.chain.nodup).1
  have hne : w.socket.writeFrames ≠ none := by simp [(chain_cons.mp hq.chain).1]
  rw [dequeueFrame, wp_bind, wp_getSocket, wp_bind, wp_getFrame, if_neg hlen, wp_bind,
    wp_modifySocket, hx]
  refine wp_mono (releaseFrame_wp env hd 'W' { hp with } (hq.dequeue hnext hlive hpay) hf
    (by rwa [World.setSocket_heap, hx])) fun _ w' h' => ?_
  exact ⟨h'.1, h'.2.closed, h'.2.connected, fun _ he => absurd he hne⟩

theorem writeVec_wp (hd : d.Preserves E WriteInv Later) {q : List FrameId}
    (hE : E (.abort .advanceWithinCapacity)) (hp : Plain w.socket)
    (hc : w.socket.connecting = false)
    (hq : QueueInv w (f :: q)) (ht : (w.heap f).type ≠ .endOfStream) :
    wp E (writeVec env d f) (fun _ w' => WriteInv w' ∧ Later w w') w := by
  obtain ⟨v, rest, hv, hlt⟩ := (hq.writable f (by simp)).cursor ht
  have hlive : Pool.Live (w.heap f) := hq.live f (by simp [hq.owner f (by simp)])
  have hw : (w.heap f).Writable := hq.writable f (by simp)
  rw [writeVec, wp_bind, wp_getFrame, Frame.getVec_of_drop hv, wp_bind, wp_liftM_ok]
  simp only [toSize_sub hlt.le]
  rw [if_neg (by omega), wp_bind]
  refine wp_mono (transmit_wp env hd ⟨hp, _, hq⟩ hc _) ?_
  rintro (_ | n) w' hw'
  · exact hw'
  obtain ⟨hn, rfl⟩ := hw'
  rw [length_slice] at hn
  rw [slice_take hn]
  dsimp only
  rw [wp_bind]
  by_cases hcap : v.capacity < v.position + n
  · rw [Frame.advanceVec_error (by omega) hcap]
    exact hE
  rw [Frame.advanceVec_eq (by omega) (not_lt.mp hcap), wp_liftM_ok, wp_bind, wp_setFrame, wp_ite]
  refine ⟨fun hpart => ?_, fun hfull => ?_⟩
  · -- the vector has bytes left, so the loop ends here
    have hq' := hq.progress (x := (w.heap f).advanced v n) rfl rfl hlive (hw.advanced hv hpart) (by
      rw [Frame.payload_of_ne ht, Frame.payload_of_ne (x := (w.heap f).advanced v n) ht]
      exact Frame.pendingBytes_advanced hv hpart.le)
    have h' : WriteInv (sentFrom w f _ _) := ⟨{ hp with }, _, hq'⟩
    obtain ⟨h₂, l₂⟩ := h'.setSocket (control_awaitWrite hp hc)
    exact ⟨h₂, trans_of Later Later.sentFrom l₂⟩
  · have hfull : v.position + n = v.limit := by omega
    have hpay : (w.heap f).payload =
        slice (w.heap f).data (v.offset + v.position) n ++ ((w.heap f).passed v n).payload := by
      rw [Frame.payload_of_ne ht, Frame.payload_of_ne (x := (w.heap f).passed v n) ht]
      exact Frame.pendingBytes_passed hv hfull
    rw [Frame.nextVec_of_drop (Frame.drop_advanced hv), wp_bind, wp_liftM_ok]
    simp only [wp_bind, wp_setFrame, World.setFrame_setFrame]
    rw [wp_ite]
    refine ⟨fun hmore => ?_, fun hlast => ?_⟩
    · have hq' := hq.progress (x := (w.heap f).passed v n) rfl rfl hlive
        (hw.passed hv (by simpa using hmore)) hpay
      exact ⟨⟨{ hp with }, _, hq'⟩, Later.sentFrom⟩
    · have hrest : rest = [] := by simpa using hlast
      have hend : ((w.heap f).passed v n).payload = [] := by
        rw [Frame.payload_of_ne (x := (w.heap f).passed v n) ht, Frame.pendingBytes,
          Frame.drop_passed hv, hrest]
        rfl
      rw [wp_bind]
      exact dequeueFrame_wp env hd hp hq (x := (w.heap f).passed v n) rfl hlive
        (by rw [hpay, hend, List.append_nil])

theorem writeLoop_wp (hd : d.Preserves E WriteInv Later)
    (hE : E (.abort .advanceWithinCapacity)) (n : ℕ) (h : WriteInv w)
    (hc : w.socket.connecting = false) :
    wp E (writeLoop env d n) (fun _ w' => WriteInv w' ∧ Later w w') w := by
  induction n generalizing w with
  | zero =>
    rw [writeLoop, wp_bind, wp_getSocket, wp_when]
    exact ⟨fun _ => h.setSocket (control_awaitWrite h.1 hc), fun _ => ⟨h, refl_of Later w⟩⟩
  | succ n ih =>
    obtain ⟨hp, q, hq⟩ := h
    rw [writeLoop, wp_bind, wp_getSocket]
    cases hf : w.socket.writeFrames with
    | none => exact ⟨⟨hp, q, hq⟩, refl_of Later w⟩
    | some f =>
      obtain ⟨q, rfl, -⟩ := Chain.exists_cons (hf ▸ hq.chain)
      rw [wp_bind, wp_getFrame, wp_ite]
      refine ⟨fun ht => writeEndOfStream_wp env hd hp hq ht, fun ht => ?_⟩
      rw [wp_bind]
      refine wp_mono (writeVec_wp env hd hE hp hc hq ht) ?_
      rintro more w' ⟨h', l'⟩
      cases more with
      | false => exact ⟨h', l'⟩
      | true =>
        refine wp_mono (ih h' (l'.connected hc)) fun _ w'' h'' => ?_
        exact ⟨h''.1, trans_of Later l' h''.2⟩

theorem writeReal_wp (hd : d.Preserves E WriteInv Later)
    (hE : E (.abort .advanceWithinCapacity)) (h : WriteInv w)
    (hc : w.socket.connecting = false) (hr : w.socket.writeReady = true) :
    wp E (writeReal env d) (fun _ w' => WriteInv w' ∧ Later w w') w := by
  rw [writeReal, wp_bind, wp_getSocket, if_neg (by simp [hr]),
    if_neg (not_not_intro ⟨hc, Or.inl ⟨h.1.ssl, h.1.sslStatus⟩⟩)]
  exact writeLoop_wp env hd hE _ h hc

theorem onWriteEvent_wp (hd : d.Preserves E WriteInv Later)
    (hE : E (.abort .advanceWithinCapacity)) (h : WriteInv w)
    (hc : w.socket.connecting = false) :
    wp E (onWriteEvent env d) (fun _ w' => WriteInv w' ∧ Later w w') w := by
  have hready : Control w.socket { w.socket with writeReady := true } :=
    ⟨⟨rfl, rfl, id, rfl⟩, { h.1 with ready := fun ht => by simp [hc] at ht }, id⟩
  obtain ⟨h₁, l₁⟩ := h.setSocket hready
  rw [onWriteEvent, wp_bind, wp_getSocket, if_neg (by simp [hc]), wp_bind, wp_modifySocket, wp_ite]
  refine ⟨fun _ => ?_, fun _ => ?_⟩
  · have hwant : Control w.socket { w.socket with
        writeReady := true, writeEvents := w.socket.writeEvents \ {WRITE_WANT_WRITE} } :=
      ⟨⟨rfl, rfl, id, rfl⟩, { hready.plain with
        want := fun ht => by simp [hc] at ht
        connect := fun hm => h.1.connect (Finset.mem_sdiff.mp hm).1 }, id⟩
    obtain ⟨h₂, l₂⟩ := h.setSocket hwant
    rw [wp_bind, wp_modifySocket, wp_bind]
    refine wp_mono (writeReal_wp env hd hE h₂ hc rfl) ?_
    rintro _ w' ⟨h', l'⟩
    obtain ⟨h₃, l₃⟩ := h'.setSocket (control_writeUnsetEvent h'.1 {WRITE_WANT_WRITE})
    rw [wp_bind, wp_getSocket, wp_when]
    exact ⟨fun _ => ⟨h₃, trans_of Later l₂ (trans_of Later l' l₃)⟩,
      fun _ => ⟨h', trans_of Later l₂ l'⟩⟩
  · obtain ⟨h₂, l₂⟩ := h₁.setSocket (control_writeUnsetEvent h₁.1 {WRITE_WANT_WRITE})
    exact ⟨h₂, trans_of Later l₁ l₂⟩

theorem QueueInv.queued {q : List FrameId} (hq : QueueInv w q) (ho : w.socket.writeOpen = true)
    (hf : w.owner f = .user) (hx : (w.heap f).Writable) : QueueInv (queued w f) (q ++ [f]) := by
  have hfq : f ∉ q := hq.not_mem (by simp [hf])
  have henq := (Queue.mk hq.chain (hq.last ho)).enqueue hfq
  constructor
  case chain => exact henq.chain
  case last => exact fun _ => henq.last_eq
  case owner =>
    intro g hg
    by_cases e : g = f
    · subst e; simp [Stream.queued]
    · simpa [Stream.queued, e] using hq.owner g (by simpa [e] using hg)
  case writable =>
    intro g hg
    rcases List.mem_append.mp hg with hg | hg
    · exact hq.writable g hg
    · obtain rfl := List.mem_singleton.mp hg
      exact hx
  case closed =>
    intro g hg ht
    rcases List.mem_append.mp hg with hg | hg
    · simp [(hq.closed g hg ht).1] at ho
    · obtain rfl := List.mem_singleton.mp hg
      have ht : (w.heap g).type = .endOfStream := ht
      exact ⟨by simp [Stream.queued, ht], q, rfl⟩
  case bytes =>
    have hb := hq.bytes
    change sentBytes (w.trace ++ [_]) ++ (q ++ [f]).flatMap (fun g => (w.heap g).payload) =
      acceptedBytes dataOnly (w.trace ++ [_])
    rw [List.flatMap_append, sentBytes_append, acceptedBytes_append, ← hb]
    simp [sentBytes, acceptedBytes, Frame.payload]
  case length =>
    rw [List.length_append, List.length_singleton]
    exact Nat.succ_le_succ hq.length
  case live =>
    intro g hg
    by_cases e : g = f
    · subst e; exact hq.live g (by simp [hf])
    · exact hq.live g (by simpa [Stream.queued, e] using hg)
  case shutdown => exact hq.shutdown.append (by simp)
  case done =>
    intro hm
    have hm : Io.shutdown .SHUT_WR ∈ w.trace := by simpa [Stream.queued] using hm
    simp [(hq.done hm).2] at ho

theorem write_wp (hd : d.Preserves E WriteInv Later) (hE : E (.abort .advanceWithinCapacity))
    (h : WriteInv w) (hf : w.owner f = .user) (hx : (w.heap f).Writable) :
    wp E (Stream.write env d f) (fun _ w' => WriteInv w' ∧ Later w w') w := by
  rw [Stream.write, wp_bind, wp_getSocket, wp_ite]
  refine ⟨fun _ => ⟨h, refl_of Later w⟩, fun ho => ?_⟩
  have ho : w.socket.writeOpen = true := by simpa using ho
  obtain ⟨hp, q, hq⟩ := h
  have h₁ : WriteInv (queued w f) := ⟨{ hp with }, _, hq.queued ho hf hx⟩
  have l₁ : Later w (queued w f) :=
    ⟨fun hc => by simp [ho] at hc, id, fun hc => by simp [ho] at hc⟩
  rw [wp_bind, wp_enqueueFrame, wp_ite]
  refine ⟨fun hr => ?_, fun hr => ?_⟩
  · rw [wp_bind, wp_when]
    refine ⟨fun hc => ?_, fun _ => ⟨h₁, l₁⟩⟩
    obtain ⟨h₂, l₂⟩ := h₁.setSocket (control_writeSetEvent h₁.1 hc)
    exact ⟨h₂, trans_of Later l₁ l₂⟩
  · have hr : w.socket.writeReady = true := by simpa using hr
    have hc : w.socket.connecting = false := by
      by_contra hcon
      simp [hp.ready (by simpa using hcon)] at hr
    rw [wp_bind]
    refine wp_mono (writeReal_wp env hd hE h₁ hc hr) fun _ w' h' => ?_
    exact ⟨h'.1, trans_of Later l₁ h'.2⟩

/-- A frame from the pool is a fresh one of the wanted type. -/
theorem poolBorrow_wp (ctx : Context) {type : FrameType} {file : String} {line : ℕ}
    (h : WriteInv w) (ht : type ≠ .free) (hl : line ≠ 0) :
    wp E (poolBorrow ctx type file line) (fun r w' => WriteInv w' ∧ Later w w' ∧
      ∀ f, r = some f → w'.owner f = .user ∧ (w'.heap f).type = type) w := by
  obtain ⟨h₁, l₁⟩ := h.tick
  rw [poolBorrow, wp_bind, wp_ask, wp_bind, wp_get]
  cases hf : ctx.framePool w.clock with
  | none => exact ⟨h₁, l₁, by simp⟩
  | some f =>
    dsimp only
    rw [wp_ite]
    refine ⟨fun ho => ?_, fun _ => ⟨h₁, l₁, by simp⟩⟩
    have ho' : w.tick.owner f ≠ .writer := by rw [ho]; simp
    obtain ⟨h₂, l₂⟩ := h₁.setFrame (x := Pool.resetFrame (w.tick.heap f) type file line) ho'
      fun hne => absurd ho hne
    obtain ⟨h₃, l₃⟩ := h₂.setOwner (f := f) (o := .user) ho'
      (fun _ => by simpa using Pool.live_resetFrame ht hl)
    refine ⟨h₃, trans_of Later l₁ (trans_of Later l₂ l₃), fun g hg => ?_⟩
    obtain rfl := Option.some.inj hg
    exact ⟨by simp, by simp [Pool.resetFrame]⟩

theorem cntlWriteShutdown_wp (hd : d.Preserves E WriteInv Later)
    (hE : E (.abort .advanceWithinCapacity)) (h : WriteInv w) :
    wp E (cntlWriteShutdown env d) (fun _ w' => WriteInv w' ∧ Later w w') w := by
  rw [cntlWriteShutdown, wp_bind, wp_getSocket, wp_ite, wp_ite]
  refine ⟨fun _ => ⟨h, refl_of Later w⟩, fun _ => ⟨fun _ => ⟨h, refl_of Later w⟩, fun _ => ?_⟩⟩
  rw [wp_bind]
  refine wp_mono (poolBorrow_wp env.toContext h (by simp) (by simp)) ?_
  rintro r w' ⟨h', l', hr⟩
  cases r with
  | none => exact ⟨h', l'⟩
  | some f =>
    obtain ⟨ho, ht⟩ := hr f rfl
    obtain ⟨h₁, l₁⟩ := h'.record (y := .obtained f) ⟨rfl, rfl, by simp⟩
    rw [wp_bind, wp_record]
    refine wp_mono (write_wp env hd hE h₁ ho (Or.inl ht)) fun _ w'' h'' => ?_
    exact ⟨h''.1, trans_of Later l' (trans_of Later l₁ h''.2)⟩

/-- The connection is established: reading and writing start. -/
theorem control_connected {s : Stream} (h : Plain s) :
    Control s { writeSetEvent {WRITE_WANT_WRITE} (readSetEvent {.READ_WANT_READ}
      (writeUnsetEvent {CONNECT_WANT_WRITE} s)) with connecting := false } := by
  rw [writeSetEvent_eq, readSetEvent_eq, writeUnsetEvent_eq]
  exact ⟨⟨rfl, rfl, id, rfl⟩, { h with
    ready := by simp
    want := by simp
    connect := by simp }, fun _ => rfl⟩

theorem onConnectEvent_wp (hd : d.Preserves E WriteInv Later)
    (hE : E (.abort .advanceWithinCapacity)) (h : WriteInv w)
    (hc : w.socket.connecting = true) :
    wp E (onConnectEvent env d) (fun _ w' => WriteInv w' ∧ Later w w') w := by
  obtain ⟨h₁, l₁⟩ := h.tick
  rw [onConnectEvent, wp_bind, wp_getSocket, if_neg (by simp [hc]), wp_bind, wp_ask]
  cases env.soError w.clock with
  | unknown => exact ⟨h₁, l₁⟩
  | error e =>
    refine wp_mono (preserves_error env hd e _ h₁) fun _ w' h' => ?_
    exact ⟨h'.1, trans_of Later l₁ h'.2⟩
  | none =>
    obtain ⟨h₂, l₂⟩ := h₁.setSocket (control_connected h₁.1)
    obtain ⟨h₃, l₃⟩ := h₂.record (y := .connected) ⟨rfl, rfl, by simp⟩
    have l : Later w _ := trans_of Later l₁ (trans_of Later l₂ l₃)
    simp only [wp_bind, wp_modifySocket, if_neg (show ¬w.socket.ssl = true by simp [h.1.ssl]),
      cntlStart, cntlReadStart, cntlWriteStart, wp_pure, wp_record, World.setSocket_setSocket,
      World.setSocket_socket]
    refine wp_mono (hd.connected _ h₃) ?_
    rintro _ w' ⟨h', l'⟩
    refine wp_mono (onWriteEvent_wp env hd hE h' (l'.connected rfl)) fun _ w'' h'' => ?_
    exact ⟨h''.1, trans_of Later l (trans_of Later l' h''.2)⟩

theorem onWriteReady_wp (hd : d.Preserves E WriteInv Later)
    (hE : E (.abort .advanceWithinCapacity)) (h : WriteInv w) :
    wp E (onWriteReady env d) (fun _ w' => WriteInv w' ∧ Later w w') w := by
  rw [onWriteReady, wp_bind, wp_getSocket, wp_bind]
  refine wp_mono (Q := fun _ w' => WriteInv w' ∧ Later w w') ?_ fun _ w' h' => ?_
  · rw [wp_when]
    refine ⟨fun hw => ?_, fun _ => ⟨h, refl_of Later w⟩⟩
    have hc : w.socket.connecting = false := by
      by_contra hcon
      exact h.1.want (by simpa using hcon) hw
    exact onWriteEvent_wp env hd hE h hc
  · rw [wp_bind, wp_getSocket, wp_when]
    exact ⟨fun hs => by simp [h'.1.1.ssl] at hs, fun _ => h'⟩

theorem onWrite_wp (hd : d.Preserves E WriteInv Later)
    (hE : E (.abort .advanceWithinCapacity)) (h : WriteInv w) :
    wp E (onWrite env d) (fun _ w' => WriteInv w' ∧ Later w w') w := by
  rw [onWrite, wp_bind, wp_getSocket, wp_bind]
  refine wp_mono (Q := fun _ w' => WriteInv w' ∧ Later w w') ?_ fun _ w' h' => ?_
  · rw [wp_when]
    exact ⟨fun hw => onConnectEvent_wp env hd hE h (h.1.connect hw),
      fun _ => ⟨h, refl_of Later w⟩⟩
  · refine wp_mono (onWriteReady_wp env hd hE h'.1) fun _ w'' h'' => ?_
    exact ⟨h''.1, trans_of Later h'.2 h''.2⟩

end Functions

section Runs

open WriteEvent

/-- A frame that `ft_stream_write` is called with: its cursor is at the first vector, and it has
something to send in each of its vectors unless it marks the end of the stream. -/
def Unsent (x : Frame) : Prop :=
  x.vecPosition = 0 ∧
    (x.type = .endOfStream ∨ (x.vecs ≠ [] ∧ ∀ v ∈ x.vecs, v.position < v.limit))

instance (x : Frame) : Decidable (Unsent x) := inferInstanceAs (Decidable (_ ∧ _))

/-- Runs of writes, write shutdowns and write events, with users working on their own frames. -/
def WriteRun (w : World Stream π) : Event → Prop
  | .call (.write f) => Unsent (w.heap f)
  | .call (.cntl codes) => codes = {.WRITE_SHUTDOWN}
  | .call (.borrow _) | .call (.frameReturn _) | .call (.fill ..) | .write => True
  | _ => False

instance (w : World Stream π) : (e : Event) → Decidable (WriteRun w e)
  | .call (.write f) => inferInstanceAs (Decidable (Unsent (w.heap f)))
  | .call (.cntl codes) => inferInstanceAs (Decidable (codes = {.WRITE_SHUTDOWN}))
  | .call (.borrow _) | .call (.frameReturn _) | .call (.fill ..) | .write =>
    inferInstanceAs (Decidable True)
  | .call (.enableSsl _) | .call (.setPartial _) | .read | .error =>
    inferInstanceAs (Decidable False)

variable (env : Env) {d : Delegate π} {E : Fault → Prop} {w : World Stream π}

theorem writable_of_unsent {x : Frame} (h : Unsent x) : x.Writable := by
  obtain ⟨h0, h⟩ := h
  refine h.imp id fun h => ?_
  rwa [h0, List.drop_zero]

theorem call_preserves (hd : d.Preserves E WriteInv Later) (hE : E (.abort .advanceWithinCapacity))
    (c : Call) : Preserves E WriteInv Later (c.exec env d WriteRun) := by
  intro w h
  rw [Call.exec, wp_bind, wp_get, wp_when]
  refine ⟨?_, fun _ => ⟨h, refl_of Later w⟩⟩
  rintro ⟨hperm, hrun⟩
  cases c with
  | write f =>
    rw [Call.perform, wp_bind]
    exact write_wp env hd hE h hperm (writable_of_unsent hrun)
  | cntl codes =>
    obtain rfl : codes = {.WRITE_SHUTDOWN} := hrun
    rw [Call.perform, wp_bind, cntl, Cntl.filter_singleton, cntlCodes, wp_bind]
    exact wp_mono (cntlWriteShutdown_wp env hd hE h) fun _ _ h' => h'
  | borrow type =>
    rw [Call.perform, wp_bind]
    exact wp_mono (poolBorrow_wp env.toContext h hperm (by simp)) fun _ _ h' => ⟨h'.1, h'.2.1⟩
  | frameReturn f => exact frameReturn_wp env.toContext h hperm
  | fill f type vecs vecPosition data =>
    have hperm : w.owner f = .user ∧ type ≠ .free := hperm
    exact h.setFrame (by simp [hperm.1]) fun ho =>
      ⟨hperm.2, (h.2.choose_spec.live f ho).2⟩
  | enableSsl r => exact hrun.elim
  | setPartial b => exact hrun.elim

theorem event_preserves (hd : d.Preserves E WriteInv Later)
    (hE : E (.abort .advanceWithinCapacity)) (e : Event) :
    Preserves E WriteInv Later (e.exec env d WriteRun) := by
  cases e with
  | call c => exact call_preserves env hd hE c
  | write =>
    intro w h
    rw [Event.exec, wp_bind, wp_get, wp_when]
    exact ⟨fun _ => onWrite_wp env hd hE h, fun _ => ⟨h, refl_of Later w⟩⟩
  | read =>
    intro w h
    rw [Event.exec, wp_bind, wp_get, wp_when]
    exact ⟨fun hc => hc.2.elim, fun _ => ⟨h, refl_of Later w⟩⟩
  | error =>
    intro w h
    rw [Event.exec, wp_bind, wp_get, wp_when]
    exact ⟨fun hc => hc.2.elim, fun _ => ⟨h, refl_of Later w⟩⟩

theorem plain_opened (o : Opening) : Plain (opened o) := by
  cases o with
  | connect =>
    simp only [opened, writeSetEvent_eq]
    exact ⟨rfl, rfl, fun _ => rfl, fun _ => by simp [Stream.init], fun _ => rfl⟩
  | _ =>
    simp only [opened, writeSetEvent_eq, readSetEvent_eq]
    exact ⟨rfl, rfl, fun _ => rfl, fun h => by simp [Stream.init] at h,
      fun h => by simp [Stream.init] at h⟩

theorem opened_queue (o : Opening) :
    (opened o).writeFrames = none ∧ (opened o).writeFrameLast = .head := by
  cases o <;> simp [opened, writeSetEvent_eq, readSetEvent_eq, Stream.init]

theorem writeInv_init (o : Opening) (proto : π) (data : FrameId → ℕ → UInt8) :
    WriteInv (World.init (opened o) proto data) where
  left := plain_opened o
  right := ⟨[], {
    chain := (opened_queue o).1
    last := fun _ => (opened_queue o).2
    owner := by simp
    writable := by simp
    closed := by simp
    bytes := rfl
    length := Nat.zero_le _
    live := by simp [World.init]
    shutdown := fun pre post h => by simp [World.init] at h
    done := by simp [World.init] }⟩

theorem scripted_writeInv {script : Script} (hE : E (.abort .advanceWithinCapacity)) (n : ℕ) :
    (scripted (π := π) env WriteRun script n).Preserves E WriteInv Later := by
  refine scripted_preserves (fun w h => h.tick) (fun w f data vecs vecPosition h ho => ?_)
    (fun d hd c => call_preserves env hd hE c) n
  exact h.setFrame (by simp [ho]) fun _ => h.2.choose_spec.live f (by simp [ho])

theorem WriteInv.inOrder (h : WriteInv w) : InOrder dataOnly w := by
  obtain ⟨-, q, hq⟩ := h
  exact ⟨⟨q, hq.chain, hq.bytes⟩, hq.shutdown⟩

/-- In every run what was sent is a prefix of what the accepted data frames hold, the rest waits in
the queue, and the write side is shut down once at most, when everything was sent. The run can
only stop at a vector whose limit is beyond its capacity. -/
theorem run_inOrder (script : Script) (n : ℕ) (o : Opening) (proto : π)
    (data : FrameId → ℕ → UInt8) (events : List Event) :
    wp (· = .abort .advanceWithinCapacity)
      (run env (scripted env WriteRun script n) WriteRun events)
      (fun _ => InOrder dataOnly) (World.init (opened o) proto data) := by
  have hd : (scripted (π := π) env WriteRun script n).Preserves
      (· = .abort .advanceWithinCapacity) WriteInv Later :=
    scripted_writeInv (E := (· = .abort .advanceWithinCapacity)) env rfl n
  refine wp_mono (preserves_forM (fun e _ => event_preserves env hd rfl e) _
    (writeInv_init o proto data)) fun _ w h => h.1.inOrder

/-- An end-of-stream frame is taken off the queue without sending its vectors. -/
theorem not_run_inOrder_all :
    ¬∀ (env : Env) (script : Script) (n : ℕ) (o : Opening) (data : FrameId → ℕ → UInt8)
      (events : List Event),
      wp (· = .abort .advanceWithinCapacity)
        (run env (scripted env WriteRun script n) WriteRun events)
        (fun _ => InOrder fun _ bytes => bytes) (World.init (opened o) () data) := by
  intro h
  let f : FrameId := ⟨0, 0⟩
  have h := h { idleEnv with framePool := fun _ => some f } idleScript 0 .accept (fun _ _ => 7)
    [.call (.borrow .endOfStream), .call (.fill f .endOfStream [⟨0, 0, 1, 1⟩] 0 fun _ => 7),
      .call (.write f), .write]
  obtain ⟨_, w, ⟨⟨q, hq, hb⟩, _⟩, hw⟩ := wp_observe h
    (g := fun r => (r.2.trace, r.2.socket.writeFrames)) (b := ([.accepted f .endOfStream [7],
      .release f 'W', .frameReturn f, .shutdown .SHUT_WR], none)) rfl
  obtain ⟨ht, hf⟩ := Prod.mk.inj hw
  obtain rfl : q = [] := Chain.eq_nil (hf ▸ hq)
  rw [ht] at hb
  simp [sentBytes, acceptedBytes] at hb

end Runs

end Stream

end FrameTransporter
