import FrameTransporter.Histories.Outbox
import FrameTransporter.Sock.Dgram.Sending

/-! # A datagram socket sends its frames in order

The write queue is an outbox. Frames are sent in the order in which they were
accepted, each of them vector by vector and none twice, on connected and on
unconnected sockets and whatever the delegate does in its callbacks. A frame that
left the queue was sent whole unless the last attempt to send it failed.
-/

namespace FrameTransporter

open Hoare Intrusive

namespace Dgram

variable {π : Type}

/-- What a trace tells about the write queue. -/
def entries (t : List Io) : List (Outbox.Entry UInt8) :=
  t.flatMap fun
    | .accepted _ type bytes => [.take (dataOnly type bytes)]
    | .send bytes => [.send bytes]
    | .release _ side => if side = 'W' then [.close] else []
    | _ => []

@[simp] theorem entries_append (t u : List Io) : entries (t ++ u) = entries t ++ entries u :=
  List.flatMap_append

/-- The socket holds the listed frames in its write queue, and they are what is left to send. -/
structure Ordered (w : World Dgram π) (q : List FrameId) : Prop extends Holds w q where
  sendable : ∀ f ∈ q, (w.heap f).type ≠ .endOfStream → (w.heap f).Sendable
  inOrder : Outbox.InOrder (entries w.trace) (q.map fun f => (w.heap f).payload)

/-- The frames of the queue are sent in order. -/
def InTurn (w : World Dgram π) : Prop := ∃ q, Ordered w q

section States

variable {w w' : World Dgram π} {q : List FrameId} {f : FrameId} {x : Frame} {s : Dgram}

/-- An entry of the trace that tells nothing about the write queue. -/
def Unlisted (x : Io) : Prop := Silent x ∧ entries [x] = []

/-- What does not touch the frames of the queue, nor sends, keeps the order. -/
theorem Ordered.of_holds (h : Ordered w q) (hq : Holds w' q)
    (hheap : ∀ f ∈ q, w'.heap f = w.heap f) (ht : entries w'.trace = entries w.trace) :
    Ordered w' q where
  toHolds := hq
  sendable f hf := hheap f hf ▸ h.sendable f hf
  inOrder := by
    have hmap : q.map (fun f => (w'.heap f).payload) = q.map fun f => (w.heap f).payload :=
      List.map_congr_left fun f hf => by rw [hheap f hf]
    rw [ht, hmap]
    exact h.inOrder

theorem Ordered.tick (h : Ordered w q) : Ordered w.tick q := { h with }

theorem Ordered.record {x : Io} (h : Ordered w q) (hx : Unlisted x) : Ordered (w.record x) q :=
  h.of_holds (h.toHolds.record hx.1) (fun _ _ => rfl) (by simp [hx.2])

theorem Ordered.setSocket (h : Ordered w q) (hs : Beside w.socket s) :
    Ordered (w.setSocket s) q :=
  h.of_holds (h.toHolds.setSocket hs) (fun _ _ => rfl) rfl

/-- A frame that is not in the queue may change. -/
theorem Ordered.setFrame (h : Ordered w q) (ho : w.owner f ≠ .writer)
    (hx : w.owner f ≠ .pool → Pool.Live x) : Ordered (w.setFrame f x) q := by
  refine h.of_holds (h.toHolds.setFrame hx fun hw => absurd hw ho) (fun g hg => ?_) rfl
  have hne : g ≠ f := fun e => ho ((h.writer f).mpr (e ▸ hg))
  simp [hne]

theorem Ordered.setOwner {o : Owner} (h : Ordered w q)
    (hf : w.owner f ≠ .writer ∧ w.owner f ≠ .reader) (ho : o ≠ .writer ∧ o ≠ .reader)
    (hl : o ≠ .pool → Pool.Live (w.heap f)) : Ordered (w.setOwner f o) q :=
  h.of_holds (h.toHolds.setOwner hf ho hl) (fun _ _ => rfl) rfl

theorem Ordered.returned (ctx : Context) (h : Ordered (w.setOwner f .user) q) :
    Ordered (w.returned ctx f) q := by
  refine h.of_holds (h.toHolds.returned ctx) (fun g hg => ?_) ?_
  · have hne : g ≠ f := by
      rintro rfl
      have hw := (h.writer g).mpr hg
      simp at hw
    simp [World.returned, hne]
  · simp [World.returned, entries]

theorem Ordered.detach (h : Ordered w q) (hf : w.socket.readFrame = some f) :
    Ordered ((w.setSocket { w.socket with readFrame := none }).setOwner f .user) q :=
  h.of_holds (h.toHolds.detach hf) (fun _ _ => rfl) rfl

theorem Ordered.attach (h : Ordered w q) (hf : w.owner f = .user)
    (hn : w.socket.readFrame = none) :
    Ordered ((w.setOwner f .reader).setSocket { w.socket with readFrame := some f }) q :=
  h.of_holds (h.toHolds.attach hf hn) (fun _ _ => rfl) rfl

theorem payload_sendable (h : x.Sendable) : x.payload = x.pendingBytes := by
  simp [Frame.payload, dataOnly, h.type]

theorem entries_send (w : World Dgram π) (bytes : List UInt8) :
    entries (w.tick.record (.send bytes)).trace = entries w.trace ++ [.send bytes] := by
  simp [entries]

/-- An attempt to send fails. -/
theorem Ordered.unsent (h : Ordered w (f :: q)) :
    Ordered (w.tick.record (.send [])) (f :: q) where
  toHolds := h.toHolds.tick.record fun _ => ⟨rfl, rfl⟩
  sendable := h.sendable
  inOrder := by
    rw [entries_send]
    exact Outbox.InOrder.send h.inOrder

theorem failed_unsent (w : World Dgram π) :
    (Outbox.sent (entries (w.tick.record (.send [])).trace)).failed = true := by
  rw [entries_send, Outbox.sent_concat]
  rfl

/-- The front frame leaves the queue when it was sent whole, or when the last attempt to send it
failed. -/
theorem Holds.leaves {rest : List UInt8} (h : Holds w (f :: q)) (last : Link FrameId)
    (hl : w.socket.writeOpen = true →
      last = if (w.heap f).next = none then .head else w.socket.writeFrameLast)
    (hs : ∀ g ∈ q, (w.heap g).type ≠ .endOfStream → (w.heap g).Sendable)
    (ho : Outbox.InOrder (entries w.trace) (rest :: q.map fun g => (w.heap g).payload))
    (hr : (Outbox.sent (entries w.trace)).failed = false → rest = []) :
    Ordered (((w.setSocket { w.socket with
      writeFrames := (w.heap f).next, writeFrameLast := last }).record
        (.release f 'W')).setOwner f .user) q where
  toHolds := h.dequeue last hl
  sendable := hs
  inOrder := by
    have ht : entries (w.trace ++ [.release f 'W']) = entries w.trace ++ [.close] := by
      simp [entries]
    exact ht ▸ ho.close hr

/-- The bytes that were taken were the next ones of the front frame. -/
theorem Ordered.inOrder_sentFrom {v : Vec} {m : ℕ} (h : Ordered w (f :: q))
    (hf : (w.heap f).Sendable) (hx : (w.heap f).SameHeader x)
    (hb : (w.heap f).pendingBytes =
      slice (w.heap f).data (v.offset + v.position) m ++ x.pendingBytes) :
    Outbox.InOrder (entries (sentFrom w f v m x).trace)
      (x.payload :: q.map fun g => ((sentFrom w f v m x).heap g).payload) := by
  have hrest : q.map (fun g => ((sentFrom w f v m x).heap g).payload) =
      q.map fun g => (w.heap g).payload := by
    refine List.map_congr_left fun g hg => ?_
    have hne : g ≠ f := fun e => h.head_not_mem (e ▸ hg)
    simp [sentFrom, hne]
  have hpay : x.payload = x.pendingBytes := by
    simp [Frame.payload, dataOnly, hx.type, hf.type]
  have ho := h.inOrder
  rw [List.map_cons, payload_sendable hf, hb] at ho
  rw [hrest, hpay, sentFrom, World.setFrame_trace, entries_send]
  exact ho.send

theorem Ordered.sentFrom {v : Vec} {m : ℕ} (h : Ordered w (f :: q))
    (hf : (w.heap f).Sendable) (hx : (w.heap f).SameHeader x) (hs : x.Sendable)
    (hb : (w.heap f).pendingBytes =
      slice (w.heap f).data (v.offset + v.position) m ++ x.pendingBytes) :
    Ordered (sentFrom w f v m x) (f :: q) where
  toHolds := h.toHolds.sentFrom hx
  sendable g hg ht := by
    by_cases e : g = f
    · subst e
      simpa [Dgram.sentFrom] using hs
    · simpa [Dgram.sentFrom, e] using h.sendable g hg (by simpa [Dgram.sentFrom, e] using ht)
  inOrder := by
    have ho := h.inOrder_sentFrom hf hx hb
    simpa [Dgram.sentFrom] using ho

/-- A frame of the user is queued. -/
theorem Ordered.enqueue (h : Ordered w q) (ho : w.socket.writeOpen = true)
    (hf : w.owner f = .user) (hx : (w.heap f).type ≠ .endOfStream → (w.heap f).Sendable) :
    Ordered (queued w f) (q ++ [f]) where
  toHolds := h.toHolds.enqueue ho hf
  sendable g hg ht := by
    have hs : (w.heap g).Sendable := by
      rcases List.mem_append.mp hg with hg | hg
      · exact h.sendable g hg ht
      · obtain rfl := List.mem_singleton.mp hg
        exact hx ht
    exact ⟨hs.type, hs.msgControl, hs.rest, hs.vecs⟩
  inOrder := by
    have hpay : ∀ g, ((queued w f).heap g).payload = (w.heap g).payload := fun _ => rfl
    have ht : entries (queued w f).trace = entries w.trace ++ [.take (w.heap f).payload] := by
      simp [queued, entries, Frame.payload]
    simp only [hpay, ht, List.map_append, List.map_cons, List.map_nil]
    exact h.inOrder.take

end States

section Functions

variable {env : Env} {d : Delegate π} {w : World Dgram π} {f : FrameId} {q : List FrameId}

/-- The frames of the queue stay in order. -/
abbrev Orders {α : Type} (m : DgramM π α) : Prop :=
  Preserves Admitted (InTurn (π := π)) (SocketStep Later) m

/-- The delegate leaves the queue in order, and the frames that it hands over are its own. -/
structure OrderDelegate (d : Delegate π) : Prop where
  preserves : d.Preserves Admitted InTurn (SocketStep Later)
  owns : d.Owns Admitted InTurn

theorem Orders.wp {α : Type} {m : DgramM π α} {s : Dgram} (hm : Orders m) (h : InTurn w)
    (l : Later s w.socket) : wp Admitted m (fun _ w' => InTurn w' ∧ Later s w'.socket) w :=
  wp_mono (hm w h) fun _ _ h' => ⟨h'.1, trans_of Later l h'.2⟩

theorem orders_ask {α : Type} (r : ℕ → α) : Orders (ask (σ := Dgram) (π := π) r) :=
  fun _ ⟨q, h⟩ => ⟨⟨q, h.tick⟩, id, fun _ => id, id⟩

theorem orders_beside {g : Dgram → Dgram} (hg : ∀ s, Beside s (g s)) :
    Orders (modifySocket (π := π) g) :=
  fun w ⟨q, h⟩ => ⟨⟨q, h.setSocket (hg w.socket)⟩, (hg w.socket).later⟩

theorem orders_record {x : Io} (hx : Unlisted x) :
    Orders (FrameTransporter.record (σ := Dgram) (π := π) x) :=
  fun _ ⟨q, h⟩ => ⟨⟨q, h.record hx⟩, id, fun _ => id, id⟩

theorem orders_cntlReadPause (on : Bool) : Orders (cntlReadPause (π := π) on) := by
  refine preserves_getSocket_bind fun w hw => ?_
  cases on with
  | true =>
    refine ((orders_beside fun s => ?_).bind fun _ => (Preserves.when _ fun _ =>
      orders_beside fun s => beside_readUnsetEvent ∅ s).bind fun _ => preserves_pure _) w hw
    exact ⟨rfl, rfl, id, rfl⟩
  | false =>
    refine (Preserves.ite _ (fun _ => preserves_throw (by simp [Admitted])) fun _ =>
      (orders_beside fun s => ?_).bind fun _ => (Preserves.when _ fun _ =>
        orders_beside fun s => beside_readSetEvent ∅ s).bind fun _ => preserves_pure _) w hw
    exact ⟨rfl, rfl, id, rfl⟩

theorem orders_pauseNoframes : Orders (pauseNoframes (π := π)) := by
  refine (orders_beside fun s => ?_).bind fun _ =>
    (orders_cntlReadPause true).bind fun _ => preserves_pure _
  exact ⟨rfl, rfl, id, rfl⟩

/-- A frame that is borrowed was in the pool, and is the user's now. -/
theorem Ordered.borrow (ctx : Context) {type : FrameType} {file : String} {line : ℕ}
    (ht : type ≠ .free) (hl : line ≠ 0) (h : Ordered w q) :
    wp Admitted (poolBorrow ctx type file line) (fun r w' =>
      (Ordered w' q ∧ Later w.socket w'.socket) ∧
        ∀ f, r = some f → w'.owner f = .user ∧ (w'.heap f).type = type) w := by
  rw [poolBorrow, wp_bind, wp_ask, wp_bind, wp_get]
  cases ctx.framePool w.clock with
  | none => exact ⟨⟨h.tick, id, fun _ => id, id⟩, by simp⟩
  | some f =>
    dsimp only
    rw [wp_ite]
    refine ⟨fun ho => ?_, fun _ => ⟨⟨h.tick, id, fun _ => id, id⟩, by simp⟩⟩
    have ho : w.owner f = .pool := ho
    have h₁ := h.tick.setFrame (f := f) (x := Pool.resetFrame (w.heap f) type file line)
      (by simp [ho]) (fun hne => absurd ho hne)
    have h₂ := h₁.setOwner (f := f) (o := .user) (by simp [ho]) (by simp)
      (fun _ => by simpa using Pool.live_resetFrame ht hl)
    refine ⟨⟨h₂, id, fun _ => id, id⟩, fun g hg => ?_⟩
    obtain rfl := Option.some.inj hg
    exact ⟨by simp, by simp [Pool.resetFrame]⟩

/-- The state in which a frame is not the socket's any more, and the others stay in order. -/
def Parts (f : FrameId) (w : World Dgram π) : Prop := InTurn (w.setOwner f .user)

theorem parts_of_user (h : InTurn w) (hf : w.owner f = .user) : Parts f w := by
  rwa [Parts, setOwner_user hf]

theorem Parts.live (h : Parts f w) : Pool.Live (w.heap f) := h.choose_spec.live f (by simp)

theorem Parts.returned (ctx : Context) (h : Parts f w) :
    wp Admitted (frameReturn ctx f) (fun _ w' => InTurn w' ∧ Later w.socket w'.socket) w := by
  rw [wp_frameReturn h.live]
  exact ⟨h.imp fun _ hq => hq.returned ctx, id, fun _ => id, id⟩

theorem Parts.givenBack (h : Parts f w) :
    wp Admitted (giveBack env f 'R') (fun _ w' => InTurn w' ∧ Later w.socket w'.socket) w := by
  rw [giveBack, wp_bind, wp_record]
  have h₁ : Parts f (w.record (.release f 'R')) :=
    h.imp fun _ hq => hq.record ⟨fun g => ⟨rfl, by simp [returns]⟩, by simp [entries]⟩
  exact h₁.returned env.toContext

theorem Parts.delivered {read : FrameId → DgramM π Bool} (hd : OrderDelegate d)
    (hr : d.read = some read) (h : Parts f w) :
    wp Admitted (deliver read f) (fun taken w' => (InTurn w' ∧ Later w.socket w'.socket) ∧
      (taken = false → w'.owner f = .user)) w := by
  rw [deliver, wp_bind, wp_getFrame, wp_bind, wp_setOwner, wp_bind, wp_record, wp_bind]
  have h₁ : InTurn ((w.setOwner f .user).record (.offer f (w.heap f).type)) :=
    h.imp fun _ hq => hq.record ⟨fun g => ⟨rfl, rfl⟩, rfl⟩
  refine wp_mono (wp_and (hd.preserves.read read hr f _ h₁) (hd.owns.refuse read hr f _ h₁)) ?_
  rintro taken w₂ ⟨⟨⟨q, h₂⟩, l₂⟩, ho⟩
  exact ⟨⟨⟨q, h₂.record ⟨fun g => ⟨rfl, rfl⟩, rfl⟩⟩, l₂.closed, l₂.empty, l₂.free⟩, ho⟩

/-- The end-of-stream frame is not the read frame any more. -/
theorem endOfStreamFrame_parts (h : InTurn w) :
    wp Admitted (endOfStreamFrame env) (fun r w' =>
      (∃ f, r = some f ∧ Parts f w' ∧ Later w.socket w'.socket) ∨
        (r = none ∧ InTurn w' ∧ Later w.socket w'.socket)) w := by
  obtain ⟨q, h⟩ := h
  have hborrow : wp Admitted (poolBorrow env.toContext .endOfStream "dgram.c" 334) (fun r w' =>
      (∃ f, r = some f ∧ Parts f w' ∧ Later w.socket w'.socket) ∨
        (r = none ∧ InTurn w' ∧ Later w.socket w'.socket)) w := by
    refine wp_mono (h.borrow env.toContext (by simp) (by simp)) ?_
    rintro r w' ⟨⟨h', l⟩, ho⟩
    cases r with
    | none => exact Or.inr ⟨rfl, ⟨q, h'⟩, l⟩
    | some f => exact Or.inl ⟨f, rfl, parts_of_user ⟨q, h'⟩ (ho f rfl).1, l⟩
  rw [endOfStreamFrame, wp_bind, wp_getSocket]
  cases hf : w.socket.readFrame with
  | none => exact hborrow
  | some f =>
    dsimp only
    rw [wp_bind, wp_getFrame, wp_ite]
    refine ⟨fun _ => ?_, fun _ => hborrow⟩
    rw [wp_bind, wp_modifySocket, wp_bind, wp_setFrame, wp_pure]
    have hd := h.detach hf
    have hl := hd.live f (by simp)
    refine Or.inl ⟨f, rfl, ⟨q, ?_⟩, id, fun _ => id, fun _ => rfl⟩
    exact hd.setFrame (f := f) (x := { (w.heap f).formatEmpty with type := .endOfStream })
      (by simp) (fun _ => ⟨by simp, hl.2⟩)

theorem orders_uplinkEndOfStream (hd : OrderDelegate d) : Orders (uplinkEndOfStream env d) := by
  intro w h
  rw [uplinkEndOfStream, wp_bind]
  refine wp_mono (endOfStreamFrame_parts h) ?_
  rintro r w₁ (⟨f, rfl, h₁, l₁⟩ | ⟨rfl, h₁, l₁⟩)
  · have h₂ : Parts f (w₁.record (.readEnd (some f))) := h₁.imp fun _ hq =>
      hq.record ⟨fun g => ⟨rfl, rfl⟩, rfl⟩
    rw [wp_bind, wp_record]
    dsimp only
    cases hr : d.read with
    | none => exact ⟨by simp, by simp, by simp⟩
    | some read =>
      dsimp only
      rw [wp_bind]
      refine wp_mono (h₂.delivered hd hr) ?_
      rintro taken w₃ ⟨⟨h₃, l₃⟩, ho⟩
      rw [wp_ite]
      refine ⟨fun _ => ⟨h₃, trans_of Later l₁ l₃⟩, fun ht => ?_⟩
      have h₄ : Parts f w₃ := parts_of_user h₃ (ho (by simpa using ht))
      refine wp_mono h₄.givenBack fun _ w₄ h' => ⟨h'.1, ?_⟩
      exact trans_of Later (trans_of Later l₁ l₃) h'.2
  · rw [wp_bind, wp_record]
    obtain ⟨q, hq⟩ := h₁
    have h₂ : InTurn (w₁.record (.readEnd none)) := ⟨q, hq.record ⟨fun g => ⟨rfl, rfl⟩, rfl⟩⟩
    exact orders_pauseNoframes.wp h₂ l₁

/-- A shutdown closes the write side. -/
theorem shutdownReal_inTurn (hd : OrderDelegate d) (uplinkEos : Bool) (h : InTurn w) :
    wp Admitted (shutdownReal env d uplinkEos) (fun _ w' =>
      (InTurn w' ∧ Later w.socket w'.socket) ∧ w'.socket.writeOpen = false ∧
        (w.socket.writeFrames = none → w'.socket.writeFrames = none)) w := by
  rw [shutdownReal, wp_bind, cntlReadStop, wp_bind, wp_modifySocket, wp_pure, wp_bind, wp_ask,
    wp_bind, wp_modifySocket, wp_bind, wp_record, wp_when]
  obtain ⟨q, h⟩ := h
  have hs : Beside w.socket { readUnsetEvent {.READ_WANT_READ} w.socket with
      shutdownAt := some (env.evNow w.clock), shutdown := true, writeOpen := false } := by
    rw [readUnsetEvent_eq]
    exact ⟨rfl, rfl, fun _ => rfl, rfl⟩
  have h₁ := (h.tick.setSocket hs).record (x := .shutdown .SHUT_RDWR) ⟨fun g => ⟨rfl, rfl⟩, rfl⟩
  have l₁ := hs.later
  refine ⟨fun _ => ?_, fun _ => ⟨⟨⟨q, h₁⟩, l₁⟩, rfl, hs.writeFrames.trans⟩⟩
  refine wp_mono (orders_uplinkEndOfStream hd _ ⟨q, h₁⟩) ?_
  rintro _ w₂ ⟨h₂, l₂⟩
  refine ⟨⟨h₂, trans_of Later l₁ l₂⟩, l₂.closed rfl, fun hf => ?_⟩
  exact l₂.empty rfl (hs.writeFrames.trans hf)

theorem orders_error (hd : OrderDelegate d) (e : Errno) : Orders (error env d e) := by
  refine (orders_beside fun s => ?_).bind fun _ => preserves_getSocket_bind fun w hw => ?_
  · exact ⟨rfl, rfl, id, rfl⟩
  refine ((orders_record ⟨fun g => ⟨rfl, rfl⟩, rfl⟩).bind fun _ =>
    hd.preserves.error.bind fun _ => ?_) w hw
  exact fun w hw => wp_mono (shutdownReal_inTurn hd false hw) fun _ _ h => h.1

end Functions

section Writing

variable {env : Env} {d : Delegate π} {w : World Dgram π} {f : FrameId} {q : List FrameId}

/-- The front frame is returned when it was sent whole, or when the last attempt to send it
failed. -/
theorem returnWriteFrame_inTurn {rest : List UInt8} (h : Holds w (f :: q))
    (hs : ∀ g ∈ q, (w.heap g).type ≠ .endOfStream → (w.heap g).Sendable)
    (ho : Outbox.InOrder (entries w.trace) (rest :: q.map fun g => (w.heap g).payload))
    (hr : (Outbox.sent (entries w.trace)).failed = false → rest = []) :
    wp Admitted (returnWriteFrame env f) (fun _ w' =>
      InTurn w' ∧ Later w.socket w'.socket) w := by
  have hq := h.leaves (if (w.heap f).next = none then .head else w.socket.writeFrameLast)
    (fun _ => rfl) hs ho hr
  have hne : w.socket.writeFrames ≠ none := by simp [(chain_cons.mp h.chain).1]
  rw [wp_returnWriteFrame h.live_head]
  exact ⟨⟨q, hq.returned env.toContext⟩, id, fun _ hf => absurd hf hne, id⟩

theorem writeEndOfStream_inTurn (hd : OrderDelegate d) (h : Ordered w (f :: q))
    (ht : (w.heap f).type = .endOfStream) :
    wp Admitted (writeEndOfStream env d f) (fun _ w' =>
      InTurn w' ∧ Later w.socket w'.socket) w := by
  obtain ⟨ho, -⟩ := h.closed f (by simp) ht
  have hpay : (w.heap f).payload = [] := by simp [Frame.payload, dataOnly, ht]
  have hin := h.inOrder
  rw [List.map_cons, hpay] at hin
  have hq := h.toHolds.leaves w.socket.writeFrameLast (fun hop => by simp [ho] at hop)
    (fun g hg => h.sendable g (List.mem_cons_of_mem _ hg)) hin fun _ => rfl
  have hne : w.socket.writeFrames ≠ none := by simp [(chain_cons.mp h.chain).1]
  rw [writeEndOfStream, wp_bind, wp_getFrame, wp_bind, wp_modifySocket, wp_bind, giveBack, wp_bind,
    wp_record]
  have hp : Parts f _ := ⟨q, hq⟩
  refine (wp_frameReturn hp.live).mpr ?_
  refine wp_mono (shutdownReal_inTurn hd true ⟨q, hq.returned env.toContext⟩) ?_
  rintro _ w₁ ⟨⟨h₁, l₁⟩, ho₁, -⟩
  exact ⟨h₁, fun _ => ho₁, fun _ hn => absurd hn hne, l₁.free⟩

/-- A send that failed leaves the frame in its place, or it was the last attempt to send it. -/
theorem sendFailed_inTurn (hd : OrderDelegate d) (e : Errno) (h : Ordered w (f :: q))
    (hfailed : (Outbox.sent (entries w.trace)).failed = true) :
    wp Admitted (sendFailed env d f e) (fun _ w' => InTurn w' ∧ Later w.socket w'.socket) w := by
  have hs : Beside w.socket { w.socket with writeReady := false } := ⟨rfl, rfl, id, rfl⟩
  have h₁ := h.setSocket hs
  have l₁ : Later w.socket { w.socket with writeReady := false } := hs.later
  rw [sendFailed, wp_bind, wp_modifySocket, wp_bind, wp_getSocket, wp_ite]
  refine ⟨fun _ => (orders_beside (beside_writeSetEvent _)).wp ⟨_, h₁⟩ l₁, fun _ => ?_⟩
  rw [wp_ite]
  refine ⟨fun _ => (orders_error hd e).wp ⟨_, h₁⟩ l₁, fun _ => ?_⟩
  refine wp_mono (returnWriteFrame_inTurn h₁.toHolds
    (fun g hg => h₁.sendable g (List.mem_cons_of_mem _ hg)) h₁.inOrder fun hf => ?_)
    fun _ w' h' => ⟨h'.1, trans_of Later l₁ h'.2⟩
  simp [hfailed] at hf

theorem writeVec_inTurn (hd : OrderDelegate d) (h : Ordered w (f :: q))
    (ht : (w.heap f).type ≠ .endOfStream) :
    wp Admitted (writeVec env d f) (fun _ w' => InTurn w' ∧ Later w.socket w'.socket) w := by
  have hx := h.sendable f (by simp) ht
  obtain ⟨v, rest, hv, hlt, hcap⟩ := hx.cursor
  cases hr : env.sendmsg w.socket (w.heap f) w.clock with
  | failed e =>
    rw [wp_writeVec_failed hx.msgControl hv hlt hr]
    exact sendFailed_inTurn hd e h.unsent (failed_unsent w)
  | sent n =>
    obtain ⟨m, hm⟩ : ∃ m, min n (v.limit - v.position) = m := ⟨_, rfl⟩
    rw [wp_writeVec_sent hx.msgControl hv hlt hcap hr hm]
    refine ⟨fun _ => ?_, fun _ hpart => ?_, fun _ hfull => ?_⟩
    · exact ⟨⟨_, h.unsent.setSocket (beside_awaitWrite _)⟩, (beside_awaitWrite _).later⟩
    · have hsame : (w.heap f).SameHeader ((w.heap f).advanced v m) := ⟨rfl, rfl, rfl, rfl⟩
      have hb := Frame.pendingBytes_advanced hv hpart.le
      have h₁ := h.sentFrom hx hsame (hx.advanced hv hpart) hb
      exact ⟨⟨_, h₁.setSocket (beside_awaitWrite _)⟩, (beside_awaitWrite _).later⟩
    · have hsame : (w.heap f).SameHeader ((w.heap f).passed v m) := ⟨rfl, rfl, rfl, rfl⟩
      have hb := Frame.pendingBytes_passed hv hfull
      split_ifs with hrest
      · subst hrest
        have hn : ((w.heap f).passed v m).pendingBytes = [] := Frame.pendingBytes_passed_nil hv
        have hpay : ((w.heap f).passed v m).payload = [] := by
          simp [Frame.payload, dataOnly, hn]
        have ho := h.inOrder_sentFrom hx hsame hb
        rw [hpay] at ho
        refine wp_mono (returnWriteFrame_inTurn (h.toHolds.sentFrom hsame) (fun g hg => ?_) ho
          fun _ => rfl) fun _ w' h' => h'
        have hne : g ≠ f := fun e => h.head_not_mem (e ▸ hg)
        simpa [sentFrom, hne] using h.sendable g (List.mem_cons_of_mem _ hg)
      · exact ⟨⟨_, h.sentFrom hx hsame (hx.passed hv hrest) hb⟩, refl_of Later _⟩

theorem orders_writeLoop (hd : OrderDelegate d) (n : ℕ) : Orders (writeLoop env d n) := by
  induction n with
  | zero =>
    refine preserves_getSocket_bind fun w hw => ?_
    exact Preserves.when _ (fun _ => orders_beside beside_awaitWrite) w hw
  | succ n ih =>
    refine preserves_getSocket_bind fun w hw => ?_
    cases hf : w.socket.writeFrames with
    | none => exact preserves_pure _ w hw
    | some f =>
      obtain ⟨q, h⟩ := hw
      obtain ⟨q, rfl, -⟩ := (hf ▸ h.chain).exists_cons
      dsimp only
      rw [wp_bind, wp_getFrame, wp_ite]
      refine ⟨fun ht => writeEndOfStream_inTurn hd h ht, fun ht => ?_⟩
      rw [wp_bind]
      refine wp_mono (writeVec_inTurn hd h ht) ?_
      rintro more w₁ ⟨h₁, l₁⟩
      rw [wp_ite]
      exact ⟨fun _ => ih.wp h₁ l₁, fun _ => ⟨h₁, l₁⟩⟩

theorem orders_writeReal (hd : OrderDelegate d) : Orders (writeReal env d) :=
  preserves_getSocket_bind fun w hw => Preserves.ite _
    (fun _ => preserves_throw ⟨by simp, by simp, by simp⟩) (fun _ => orders_writeLoop hd _) w hw

theorem orders_onWriteEvent (hd : OrderDelegate d) : Orders (onWriteEvent env d) := by
  refine (orders_beside fun s => ?_).bind fun _ => preserves_getSocket_bind fun w hw => ?_
  · exact ⟨rfl, rfl, id, rfl⟩
  refine Preserves.ite _ (fun _ => (orders_beside fun s => ?_).bind fun _ =>
    (orders_writeReal hd).bind fun _ => preserves_getSocket_bind fun w hw => ?_)
    (fun _ => orders_beside (beside_writeUnsetEvent _)) w hw
  · exact ⟨rfl, rfl, id, rfl⟩
  · exact Preserves.when _ (fun _ => orders_beside (beside_writeUnsetEvent _)) w hw

/-- A frame of the user is queued, returned or refused. -/
theorem write_inTurn (hd : OrderDelegate d) (h : InTurn w) (ho : w.owner f = .user)
    (hx : (w.heap f).type ≠ .endOfStream → (w.heap f).Sendable) :
    wp Admitted (write env d f) (fun _ w' => InTurn w' ∧ Later w.socket w'.socket) w := by
  rw [write, wp_bind, wp_getSocket, wp_bind, wp_getFrame, wp_ite]
  refine ⟨fun _ => ?_, fun hop => ?_⟩
  · rw [wp_ite]
    refine ⟨fun _ => ?_, fun _ => ⟨h, refl_of Later _⟩⟩
    rw [wp_bind]
    exact wp_mono ((parts_of_user h ho).returned env.toContext) fun _ _ h' => h'
  · have hop : w.socket.writeOpen = true := by simpa using hop
    obtain ⟨q, h⟩ := h
    have h₁ : InTurn (queued w f) := ⟨_, h.enqueue hop ho hx⟩
    have l₁ : Later w.socket (queued w f).socket :=
      ⟨fun hc => by simp [hop] at hc, fun hc => by simp [hop] at hc, id⟩
    rw [wp_bind, wp_enqueueFrame, wp_ite]
    refine ⟨fun _ => ?_, fun _ => ?_⟩
    · rw [wp_bind]
      exact (orders_beside (beside_writeSetEvent _)).wp h₁ l₁
    · rw [wp_bind]
      exact (orders_writeReal hd).wp h₁ l₁

/-- A flush, however many rounds it makes. -/
theorem orders_flushLoop (hd : OrderDelegate d) (n : ℕ) : Orders (flushLoop env d n) := by
  induction n with
  | zero => exact preserves_getSocket_bind fun w hw => preserves_pure _ w hw
  | succ n ih =>
    refine preserves_getSocket_bind fun w hw => Preserves.ite _ (fun _ => preserves_pure _)
      (fun _ => (orders_beside fun s => ?_).bind fun _ =>
        (orders_writeReal hd).bind fun _ => ih) w hw
    exact ⟨rfl, rfl, id, rfl⟩

theorem orders_flush (hd : OrderDelegate d) (n : ℕ) : Orders (flush env d n) := by
  refine preserves_getSocket_bind fun w hw => Preserves.ite _ (fun _ => preserves_pure _)
    (fun _ => (orders_flushLoop hd n).bind fun done => ?_) w hw
  refine (Preserves.when (done = true) fun _ => orders_beside fun s => ?_).bind fun _ =>
    preserves_pure _
  exact ⟨rfl, rfl, id, rfl⟩

theorem orders_cntlShutdown (hd : OrderDelegate d) : Orders (cntlShutdown env d) := by
  refine preserves_getSocket_bind fun w hw => ?_
  refine Preserves.ite _ (fun _ => preserves_pure _) (fun _ => Preserves.ite _
    (fun _ => preserves_pure _) fun _ => ?_) w hw
  rintro w ⟨q, hw⟩
  rw [wp_bind]
  refine wp_mono (hw.borrow env.toContext (by simp) (by simp)) ?_
  rintro r w₁ ⟨⟨h₁, l₁⟩, hr⟩
  cases r with
  | none => exact ⟨⟨q, h₁⟩, l₁⟩
  | some f =>
    obtain ⟨ho, ht⟩ := hr f rfl
    refine wp_mono (write_inTurn hd ⟨q, h₁⟩ ho fun hn => absurd ht hn) fun _ w₂ h₂ => ⟨h₂.1, ?_⟩
    exact trans_of Later l₁ h₂.2

theorem orders_cntlCode (hd : OrderDelegate d) (c : Cntl) : Orders (cntlCode env d c) := by
  cases c with
  | READ_START => exact (orders_beside (beside_readSetEvent _)).bind fun _ => preserves_pure _
  | READ_STOP => exact (orders_beside (beside_readUnsetEvent _)).bind fun _ => preserves_pure _
  | READ_PAUSE => exact orders_cntlReadPause true
  | READ_RESUME => exact orders_cntlReadPause false
  | WRITE_START => exact (orders_beside (beside_writeSetEvent _)).bind fun _ => preserves_pure _
  | WRITE_STOP => exact (orders_beside (beside_writeUnsetEvent _)).bind fun _ => preserves_pure _
  | SHUTDOWN => exact orders_cntlShutdown hd

theorem orders_dgramBind : Orders (dgramBind (π := π) env) := by
  refine preserves_getSocket_bind fun w hw => ((orders_ask _).bind fun ok => Preserves.ite _
    (fun _ => ?_) fun _ => preserves_pure _) w hw
  refine (orders_beside fun s => ?_).bind fun _ =>
    (orders_beside (beside_readSetEvent _)).bind fun _ => preserves_pure _
  exact ⟨rfl, rfl, id, rfl⟩

theorem orders_dgramConnect : Orders (dgramConnect (π := π) env) := by
  refine preserves_getSocket_bind fun w hw => ((orders_ask _).bind fun ok => Preserves.ite _
    (fun _ => ?_) fun _ => preserves_pure _) w hw
  refine (orders_beside fun s => ?_).bind fun _ =>
    (orders_beside (beside_writeSetEvent _)).bind fun _ => preserves_pure _
  exact ⟨rfl, rfl, id, rfl⟩

end Writing

section Reading

variable {env : Env} {d : Delegate π} {w : World Dgram π} {f : FrameId}

/-- A frame that is fetched for reading is the user's. -/
theorem fetchReadFrame_inTurn (hd : OrderDelegate d) (h : InTurn w) :
    wp Admitted (fetchReadFrame env d) (fun r w' =>
      (InTurn w' ∧ Later w.socket w'.socket) ∧ ∀ f, r = some f → w'.owner f = .user) w := by
  rw [fetchReadFrame]
  cases hg : d.getReadFrame with
  | some g => exact wp_and (hd.preserves.getReadFrame g hg w h) (hd.owns.fetch g hg w h)
  | none =>
    obtain ⟨q, h⟩ := h
    dsimp only
    rw [wp_bind]
    refine wp_mono (h.borrow env.toContext (by simp) (by simp)) ?_
    rintro r w₁ ⟨⟨h₁, l₁⟩, hr⟩
    cases r with
    | none => exact ⟨⟨⟨q, h₁⟩, l₁⟩, by simp⟩
    | some f =>
      obtain ⟨ho, -⟩ := hr f rfl
      dsimp only
      rw [wp_bind, wp_getFrame, wp_bind]
      cases hx : (w₁.heap f).formatSimple with
      | error e => exact admitted_formatSimple hx
      | ok x =>
        rw [wp_liftM_ok, wp_bind, wp_setFrame, wp_pure]
        have hl := h₁.live f (by simp [ho])
        refine ⟨⟨⟨q, h₁.setFrame (by simp [ho]) fun _ => ?_⟩, l₁⟩, fun g hg => ?_⟩
        · exact (Frame.SameHeader.of_formatSimple hx).live hl
        · exact Option.some.inj hg ▸ ho

/-- The read frame is the current one or one that is taken now. -/
theorem takeReadFrame_inTurn (hd : OrderDelegate d) (h : InTurn w) :
    wp Admitted (takeReadFrame env d) (fun r w' => InTurn w' ∧ w'.socket.readFrame = r) w := by
  rw [takeReadFrame, wp_bind, wp_getSocket, wp_ite]
  refine ⟨fun _ => ⟨h, rfl⟩, fun hn => ?_⟩
  have hn : w.socket.readFrame = none := not_not.mp hn
  rw [wp_bind]
  refine wp_mono (fetchReadFrame_inTurn hd h) ?_
  rintro r w₁ ⟨⟨h₁, l₁⟩, hr⟩
  cases r with
  | none =>
    rw [wp_bind]
    exact wp_mono (orders_pauseNoframes.wp h₁ l₁) fun _ w₂ h₂ => ⟨h₂.1, h₂.2.free hn⟩
  | some f =>
    obtain ⟨q, h₁⟩ := h₁
    rw [wp_bind, wp_setOwner, wp_bind, wp_modifySocket, wp_pure]
    exact ⟨⟨q, h₁.attach (hr f rfl) (l₁.free hn)⟩, rfl⟩

/-- The read frame stays while a datagram was received for it. -/
theorem receive_inTurn (hd : OrderDelegate d) (v : Vec) (size : ℕ) (h : InTurn w) :
    wp Admitted (receive env d v size) (fun r w' =>
      InTurn w' ∧ (r ≠ none → w'.socket = w.socket)) w := by
  obtain ⟨q, h⟩ := h
  have hrec : ∀ bytes : List UInt8, InTurn (w.tick.record (.recv v size bytes)) :=
    fun _ => ⟨q, h.tick.record ⟨fun g => ⟨rfl, rfl⟩, rfl⟩⟩
  rw [receive, wp_bind, wp_getSocket, wp_bind, wp_ask]
  cases env.recvmsg w.socket w.clock with
  | failed e =>
    have he : wp Admitted (error env d e >>= fun _ => pure none)
        (fun (r : Option (List UInt8 × ℕ)) w' => InTurn w' ∧ (r ≠ none → w'.socket = w.socket))
        (w.tick.record (.recv v size [])) := by
      rw [wp_bind]
      exact wp_mono (orders_error hd e _ (hrec [])) fun _ w' h' => ⟨h'.1, by simp⟩
    cases e with
    | EAGAIN => exact ⟨(orders_beside (beside_readSetEvent _) _ (hrec [])).1, by simp⟩
    | _ => exact he
  | datagram bytes namelen =>
    dsimp only
    rw [wp_bind, wp_record, wp_ite]
    refine ⟨fun _ => ?_, fun _ => ⟨hrec _, fun _ => rfl⟩⟩
    have hs : ∀ s : Dgram, Beside s { s with sysErrno := none } := fun _ => ⟨rfl, rfl, id, rfl⟩
    obtain ⟨h₁, -⟩ := orders_beside hs _ (hrec (bytes.take size))
    rw [wp_bind, wp_modifySocket, wp_bind]
    exact wp_mono (shutdownReal_inTurn hd true h₁) fun _ _ h' => ⟨h'.1.1, by simp⟩

/-- The read frame is given away, or taken again. -/
theorem uplink_inTurn (hd : OrderDelegate d) (h : InTurn w)
    (hf : w.socket.readFrame = some f) : wp Admitted (uplink d f) (fun _ => InTurn) w := by
  obtain ⟨q, h⟩ := h
  have h₁ : Parts f (w.setSocket { w.socket with readFrame := none }) := ⟨q, h.detach hf⟩
  rw [uplink, wp_bind, wp_modifySocket]
  cases hr : d.read with
  | none => exact ⟨by simp, by simp, by simp⟩
  | some read =>
    dsimp only
    rw [wp_bind]
    refine wp_mono (h₁.delivered hd hr) ?_
    rintro taken w₂ ⟨⟨⟨q, h₂⟩, _⟩, ho⟩
    rw [wp_ite]
    refine ⟨fun _ => ⟨q, h₂⟩, fun ht => ?_⟩
    rw [wp_bind, wp_getSocket, wp_ite]
    refine ⟨fun _ => ⟨by simp, by simp, by simp⟩, fun hn => ?_⟩
    rw [wp_bind, wp_setOwner, wp_modifySocket]
    exact ⟨q, h₂.attach (ho (by simpa using ht)) (not_not.mp hn)⟩

theorem readVec_inTurn (hd : OrderDelegate d) (h : InTurn w)
    (hf : w.socket.readFrame = some f) : wp Admitted (readVec env d f) (fun _ => InTurn) w := by
  rw [readVec, wp_bind, wp_getFrame, wp_bind]
  cases hv : (w.heap f).getVec with
  | error e => exact admitted_getVec hv
  | ok v =>
    rw [wp_liftM_ok]
    cases v with
    | none => exact ⟨by simp, by simp, by simp⟩
    | some v =>
      dsimp only
      rw [wp_ite]
      refine ⟨fun _ => ⟨by simp, by simp, by simp⟩, fun _ => ?_⟩
      rw [wp_bind]
      refine wp_mono (receive_inTurn hd v _ h) ?_
      rintro r w₁ ⟨⟨q, h₁⟩, hs⟩
      cases r with
      | none => exact ⟨q, h₁⟩
      | some r =>
        obtain ⟨bytes, addrlen⟩ := r
        have hf₁ : w₁.socket.readFrame = some f := by rw [hs (by simp), hf]
        have ho : w₁.owner f = .reader := (h₁.reader f).mpr hf₁
        have hl : Pool.Live (w.heap f) := by
          obtain ⟨q, h⟩ := h
          exact h.live f (by simp [(h.reader f).mpr hf])
        dsimp only
        rw [wp_bind]
        cases ha : Frame.advanceVec { (w.heap f).write (v.offset + v.position) bytes with addrlen }
          v bytes.length with
        | error e => exact admitted_advanceVec ha
        | ok x =>
          have hx := Frame.SameHeader.of_advanceVec ha
          rw [wp_liftM_ok, wp_bind]
          cases hn : x.nextVec with
          | error e => exact admitted_nextVec hn
          | ok s =>
            obtain ⟨more, y⟩ := s
            have hy := hx.trans (Frame.SameHeader.of_nextVec hn)
            have h₂ : InTurn (w₁.setFrame f y) :=
              ⟨q, h₁.setFrame (by simp [ho]) fun _ => hy.live hl⟩
            rw [wp_liftM_ok, wp_bind, wp_setFrame, wp_ite]
            refine ⟨fun _ => h₂, fun _ => ?_⟩
            rw [wp_bind]
            exact wp_mono (uplink_inTurn hd h₂ hf₁) fun _ _ h' => h'

theorem readLoop_inTurn (hd : OrderDelegate d) (n : ℕ) : ∀ {w : World Dgram π}, InTurn w →
    wp Admitted (readLoop env d n) (fun _ => InTurn) w := by
  induction n with
  | zero => exact fun h => (orders_beside (beside_readSetEvent _) _ h).1
  | succ n ih =>
    intro w h
    rw [readLoop, wp_bind]
    refine wp_mono (takeReadFrame_inTurn hd h) ?_
    rintro r w₁ ⟨h₁, hr⟩
    cases r with
    | none => exact h₁
    | some f =>
      dsimp only
      rw [wp_bind]
      refine wp_mono (readVec_inTurn hd h₁ hr) fun more w₂ h₂ => ?_
      rw [wp_ite]
      exact ⟨fun _ => ih h₂, fun _ => h₂⟩

end Reading

section Runs

instance (x : Frame) : Decidable x.Sendable :=
  decidable_of_iff (x.type ≠ .endOfStream ∧ x.msgControl = false ∧
      x.vecs.drop x.vecPosition ≠ [] ∧
        ∀ v ∈ x.vecs.drop x.vecPosition, v.position < v.limit ∧ v.limit ≤ v.capacity)
    ⟨fun h => ⟨h.1, h.2.1, h.2.2.1, h.2.2.2⟩, fun h => ⟨h.type, h.msgControl, h.rest, h.vecs⟩⟩

/-- A frame that is written ends the stream, or each of its vectors holds bytes to send. -/
def Sends (w : World Dgram π) : Event → Prop
  | .call (.write f) => (w.heap f).type ≠ .endOfStream → (w.heap f).Sendable
  | _ => True

instance (w : World Dgram π) : (e : Event) → Decidable (Sends w e)
  | .call (.write f) =>
    inferInstanceAs (Decidable ((w.heap f).type ≠ .endOfStream → (w.heap f).Sendable))
  | .call (.cntl _) | .call .bind | .call .connect | .call (.borrow _) | .call (.frameReturn _)
  | .call (.fill ..) | .read | .write | .error => inferInstanceAs (Decidable True)

variable (env : Env) {d : Delegate π} {w : World Dgram π}

/-- Every call leaves the queue in order. -/
theorem orders_call (hd : OrderDelegate d) (c : Call) : Orders (c.exec env d Sends) := by
  refine preserves_get_bind fun w hw => ?_
  rw [wp_when]
  refine ⟨?_, fun _ => ⟨hw, refl_of (SocketStep Later) w⟩⟩
  rintro ⟨hperm, hsend⟩
  cases c with
  | write f =>
    rw [Call.perform, wp_bind]
    exact wp_mono (write_inTurn hd hw hperm hsend) fun _ _ h' => h'
  | cntl codes =>
    exact ((cntlCodes_preserves fun c _ => orders_cntlCode hd c).bind fun _ =>
      preserves_pure _) w hw
  | bind => exact (orders_dgramBind.bind fun _ => preserves_pure _) w hw
  | connect => exact (orders_dgramConnect.bind fun _ => preserves_pure _) w hw
  | borrow type =>
    obtain ⟨q, hw⟩ := hw
    rw [Call.perform, wp_bind]
    refine wp_mono (hw.borrow env.toContext hperm (by simp)) fun _ w' h' => ?_
    exact ⟨⟨q, h'.1.1⟩, h'.1.2⟩
  | frameReturn f => exact (parts_of_user hw hperm).returned env.toContext
  | fill f type vecs vecPosition data msgControl =>
    have hperm : w.owner f = .user ∧ type ≠ .free := hperm
    obtain ⟨q, hw⟩ := hw
    refine ⟨⟨q, hw.setFrame (by simp [hperm.1]) fun ho => ?_⟩, id, fun _ => id, id⟩
    exact ⟨hperm.2, (hw.live f ho).2⟩

theorem scripted_orderDelegate (script : Script) (n : ℕ) :
    OrderDelegate (scripted (π := π) env Sends script n) := by
  have hdelegate (calls : List Call → DgramM π Unit) (h : ∀ cs, Orders (calls cs)) :
      OrderDelegate (script.delegate calls) := by
    refine ⟨Script.delegate_preserves (orders_ask fun _ => ()) ?_ h,
      Script.owns (fun w hw => (orders_ask (fun _ => ()) w hw).1) ?_⟩
    · rintro w f data vecs vecPosition ⟨q, hw⟩ ho
      refine ⟨⟨q, hw.setFrame (by simp [ho]) fun hp => hw.live f hp⟩, ?_⟩
      exact refl_of Later _
    · exact fun cs w hw => wp_mono (h cs w hw) fun _ _ _ => trivial
  induction n with
  | zero => exact hdelegate _ fun _ => preserves_pure _
  | succ n ih => exact hdelegate _ fun cs => preserves_forM fun c _ => orders_call env ih c

theorem event_inTurn (hd : OrderDelegate d) (e : Event) (h : InTurn w) :
    wp Admitted (e.exec env d Sends) (fun _ => InTurn) w := by
  cases e with
  | call c => exact wp_mono (orders_call env hd c w h) fun _ _ h' => h'.1
  | read =>
    rw [Event.exec, wp_bind, wp_get, wp_when]
    refine ⟨fun _ => ?_, fun _ => h⟩
    rw [onRead, wp_bind, wp_getSocket, wp_ite]
    refine ⟨fun _ => ?_, fun _ => ?_⟩
    · have hs : ∀ s : Dgram, Beside s { s with readWatcher := false } :=
        fun _ => ⟨rfl, rfl, id, rfl⟩
      exact (orders_beside hs w h).1
    · rw [wp_when]
      exact ⟨fun _ => readLoop_inTurn hd _ h, fun _ => h⟩
  | write =>
    rw [Event.exec, wp_bind, wp_get, wp_when]
    refine ⟨fun _ => ?_, fun _ => h⟩
    rw [onWrite, wp_bind, wp_getSocket, wp_when]
    exact ⟨fun _ => wp_mono (orders_onWriteEvent hd w h) fun _ _ h' => h'.1, fun _ => h⟩
  | error =>
    rw [Event.exec, wp_bind, wp_get, wp_when]
    refine ⟨fun _ => ?_, fun _ => h⟩
    have hs : ∀ s : Dgram, Beside s { s with readWatcher := false, writeWatcher := false } :=
      fun _ => ⟨rfl, rfl, id, rfl⟩
    rw [wp_bind]
    refine wp_mono (orders_beside hs w h) fun _ w₁ h₁ => ?_
    exact wp_mono (orders_error hd _ w₁ h₁.1) fun _ _ h' => h'.1

theorem inTurn_init (proto : π) (data : FrameId → ℕ → UInt8) :
    InTurn (World.init init proto data) :=
  ⟨[], holds_init proto data, fun f hf => absurd hf (by simp), Outbox.inOrder_nil⟩

/-- The frames that were accepted are those that left the queue, each sent as far as its fate says,
and behind them those in the queue. Of the first frame there some bytes may be sent already. -/
def SentInOrder (w : World Dgram π) : Prop :=
  ∃ q messages, Chain w.next w.socket.writeFrames q ∧
    List.Forall₂ Outbox.Fate (Outbox.sent (entries w.trace)).closed messages ∧
      Outbox.taken (entries w.trace) = messages ++
        Outbox.waiting (Outbox.sent (entries w.trace)).current (q.map fun f => (w.heap f).payload)

/-- In every run frames are sent in the order in which they were accepted, and a flush behind it
keeps to the order too. -/
theorem run_sent_in_order (script : Script) (n rounds : ℕ) (proto : π)
    (data : FrameId → ℕ → UInt8) (events : List Event) :
    wp Admitted (do
        run env (scripted env Sends script n) Sends events
        let _ ← flush env (scripted env Sends script n) rounds)
      (fun _ => SentInOrder) (World.init init proto data) := by
  have hd := scripted_orderDelegate (π := π) env script n
  have hrun : wp Admitted (run env (scripted env Sends script n) Sends events)
      (fun _ => InTurn) (World.init init proto data) :=
    wp_forM (fun e _ w hw => event_inTurn env hd e hw) (inTurn_init proto data)
  rw [wp_bind]
  refine wp_mono hrun fun _ w hw => ?_
  rw [wp_bind]
  refine wp_mono (orders_flush hd rounds w hw) fun _ w' h' => ?_
  obtain ⟨⟨q, h⟩, -⟩ := h'
  obtain ⟨messages, hfate, htaken⟩ := h.inOrder.closed
  exact ⟨q, messages, h.chain, hfate, htaken⟩

end Runs

section Examples

/-- A system that refuses messages of the byte 7 for good, and takes others byte by byte. -/
def pickyEnv : Env :=
  { sendingEnv with
    sendmsg := fun _ x _ => if x.data 0 = 7 then .failed .ECONNRESET else .sent 1 }

/-- Two frames are queued, and the socket may send. -/
def sendingTwo : List Event :=
  [.call (.borrow .rawData), .call (.fill ⟨0, 0⟩ .rawData [⟨0, 0, 2, 2⟩] 0 (fun _ => 7) false),
    .call (.borrow .rawData), .call (.fill ⟨0, 1⟩ .rawData [⟨0, 0, 2, 2⟩] 0 (fun _ => 9) false),
    .call (.write ⟨0, 0⟩), .call (.write ⟨0, 1⟩), .write]

-- the frame that was refused is given up, and the one behind it is sent whole
example : ((do
      run (π := Unit) pickyEnv (scripted pickyEnv Sends idleScript 1) Sends sendingTwo
      let _ ← flush pickyEnv (scripted pickyEnv Sends idleScript 1) 3
      return (Outbox.sent (entries (← get).trace)).closed)
    (World.init init () fun _ _ => 0)).toOption.map Prod.fst =
      some [([], true), ([9, 9], false)] := by
  decide +kernel

end Examples

end Dgram

end FrameTransporter
