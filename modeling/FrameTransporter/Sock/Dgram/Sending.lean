import FrameTransporter.Sock.Dgram.Release
import FrameTransporter.Sock.Stream.WriteQueue

/-! # Sending the frames of a datagram socket

The write loop on a data frame sends the vector under its cursor. What the system
takes is counted off the frame, and a frame without further bytes is returned. On a
connected socket no other exit takes bytes out of the queue, so the bytes that were
sent and those that wait are the ones that were accepted.
-/

namespace FrameTransporter

open Hoare Intrusive

/-- A data frame whose vectors can be sent one after the other. -/
structure Frame.Sendable (x : Frame) : Prop where
  type : x.type ≠ .endOfStream
  msgControl : x.msgControl = false
  rest : x.vecs.drop x.vecPosition ≠ []
  vecs : ∀ v ∈ x.vecs.drop x.vecPosition, v.position < v.limit ∧ v.limit ≤ v.capacity

namespace Frame

variable {x : Frame} {v : Vec} {rest : List Vec} {n : ℕ}

theorem Sendable.cursor (h : x.Sendable) : ∃ v rest, x.vecs.drop x.vecPosition = v :: rest ∧
    v.position < v.limit ∧ v.limit ≤ v.capacity := by
  obtain ⟨v, rest, hd⟩ := List.exists_cons_of_ne_nil h.rest
  exact ⟨v, rest, hd, h.vecs v (by simp [hd])⟩

theorem Sendable.advanced (h : x.Sendable) (hv : x.vecs.drop x.vecPosition = v :: rest)
    (hn : v.position + n < v.limit) : (x.advanced v n).Sendable where
  type := h.type
  msgControl := h.msgControl
  rest := by
    have hd : (x.advanced v n).vecs.drop (x.advanced v n).vecPosition = _ := drop_advanced hv
    simp [hd]
  vecs u hu := by
    have hd : (x.advanced v n).vecs.drop (x.advanced v n).vecPosition = _ := drop_advanced hv
    rw [hd] at hu
    rcases List.mem_cons.mp hu with rfl | hu
    · exact ⟨hn, (h.vecs v (by simp [hv])).2⟩
    · exact h.vecs u (by simp [hv, hu])

theorem Sendable.passed (h : x.Sendable) (hv : x.vecs.drop x.vecPosition = v :: rest)
    (hrest : rest ≠ []) : (x.passed v n).Sendable where
  type := h.type
  msgControl := h.msgControl
  rest := by rwa [drop_passed hv]
  vecs u hu := by
    rw [drop_passed hv] at hu
    exact h.vecs u (by simp [hv, hu])

theorem pendingBytes_passed_nil (hv : x.vecs.drop x.vecPosition = [v]) :
    (x.passed v n).pendingBytes = [] := by
  rw [pendingBytes, drop_passed hv]
  rfl

end Frame

namespace Dgram

variable {π : Type}

section Symbolic

variable {env : Env} {d : Delegate π} {E : Fault → Prop} {w : World Dgram π} {f : FrameId}
  {q : List FrameId} {v : Vec} {rest : List Vec}

/-- The state after `sendmsg` took `n` bytes of the vector `v` of a frame, which is now `x`. -/
def sentFrom (w : World Dgram π) (f : FrameId) (v : Vec) (n : ℕ) (x : Frame) : World Dgram π :=
  ((w.tick.record (.send (slice (w.heap f).data (v.offset + v.position) n))).setFrame f x)

/-- The state after the front frame was returned to the pool. -/
def frontReturned (env : Env) (w : World Dgram π) (f : FrameId) : World Dgram π :=
  ((w.setSocket { w.socket with
    writeFrames := (w.heap f).next
    writeFrameLast := if (w.heap f).next = none then .head else w.socket.writeFrameLast }).record
      (.release f 'W')).returned env.toContext f

theorem wp_returnWriteFrame {Q : Unit → World Dgram π → Prop} (h : Pool.Live (w.heap f)) :
    wp E (returnWriteFrame env f) Q w ↔ Q () (frontReturned env w f) := by
  rw [returnWriteFrame, wp_bind, wp_getFrame, wp_bind, wp_modifySocket, giveBack, wp_bind,
    wp_record]
  exact wp_frameReturn h

theorem setFrame_self (w : World Dgram π) (f : FrameId) : w.setFrame f (w.heap f) = w := by
  simp [World.setFrame]

/-- What `sendmsg` takes of a vector. -/
theorem take_slice {mem : ℕ → UInt8} {off len n : ℕ} :
    (slice mem off len).take n = slice mem off (min n len) := by
  rcases le_total n len with h | h
  · rw [slice_take h, min_eq_left h]
  · rw [List.take_of_length_le (by simpa using h), min_eq_right h]

section

variable (hc : (w.heap f).msgControl = false)
  (hv : (w.heap f).vecs.drop (w.heap f).vecPosition = v :: rest) (hlt : v.position < v.limit)

include hc hv hlt

/-- A send that fails leaves the frame alone. -/
theorem wp_writeVec_failed {Q : Bool → World Dgram π → Prop} {e : Errno}
    (hr : env.sendmsg w.socket (w.heap f) w.clock = .failed e) :
    wp E (writeVec env d f) Q w ↔
      wp E (sendFailed env d f e) (fun _ => Q false) (w.tick.record (.send [])) := by
  have hsize : toSize (v.limit - v.position) = v.limit - v.position := toSize_sub hlt.le
  have hcontrol : (w.heap f).withoutControl = w.heap f := by
    simp [Frame.withoutControl, hc]
  rw [writeVec, wp_bind, wp_getFrame, wp_bind, Frame.getVec_of_drop hv, wp_liftM_ok]
  dsimp only
  rw [hsize, if_neg (by omega), wp_bind, wp_setFrame, hcontrol, setFrame_self, wp_bind, transmit,
    wp_bind, wp_getSocket, wp_bind, wp_ask, hr]
  dsimp only
  rw [wp_bind, wp_record, wp_bind]
  rfl

/-- What the system takes is counted off the vector, and the loop goes on behind its last byte. -/
theorem wp_writeVec_sent {Q : Bool → World Dgram π → Prop} {n m : ℕ} (hcap : v.limit ≤ v.capacity)
    (hr : env.sendmsg w.socket (w.heap f) w.clock = .sent n)
    (hm : min n (v.limit - v.position) = m) :
    wp E (writeVec env d f) Q w ↔
      (m = 0 → Q false ((w.tick.record (.send [])).setSocket (awaitWrite w.socket))) ∧
      (0 < m → v.position + m < v.limit →
        Q false ((sentFrom w f v m ((w.heap f).advanced v m)).setSocket (awaitWrite w.socket))) ∧
      (0 < m → v.position + m = v.limit → if rest = [] then
          wp E (returnWriteFrame env f) (fun _ => Q true) (sentFrom w f v m ((w.heap f).passed v m))
        else Q true (sentFrom w f v m ((w.heap f).passed v m))) := by
  have hsize : toSize (v.limit - v.position) = v.limit - v.position := toSize_sub hlt.le
  have hcontrol : (w.heap f).withoutControl = w.heap f := by
    simp [Frame.withoutControl, hc]
  have hle : v.position + m ≤ v.limit := by omega
  rw [writeVec, wp_bind, wp_getFrame, wp_bind, Frame.getVec_of_drop hv, wp_liftM_ok]
  dsimp only
  rw [hsize, if_neg (by omega), wp_bind, wp_setFrame, hcontrol, setFrame_self, wp_bind, transmit,
    wp_bind, wp_getSocket, wp_bind, wp_ask, hr]
  dsimp only
  rw [wp_bind, wp_record, take_slice, length_slice, hm]
  rcases Nat.eq_zero_or_pos m with rfl | hpos
  · rw [if_pos rfl, wp_bind, wp_modifySocket, wp_pure]
    simp
  · rw [if_neg hpos.ne', wp_pure]
    dsimp only
    rw [wp_bind, Frame.advanceVec_eq hle (hle.trans hcap), wp_liftM_ok, wp_bind, wp_setFrame]
    rcases hle.lt_or_eq with hpart | hfull
    · rw [if_pos hpart, wp_bind, wp_modifySocket, wp_pure]
      simp [hpos, hpos.ne', hpart, hpart.ne, sentFrom]
    · rw [if_neg (by omega), wp_bind, Frame.nextVec_of_drop (Frame.drop_advanced hv), wp_liftM_ok]
      dsimp only
      rw [wp_bind, wp_setFrame, World.setFrame_setFrame]
      change wp E (if decide (rest ≠ []) = true then pure true else _) Q
        (sentFrom w f v m ((w.heap f).passed v m)) ↔ _
      by_cases hrest : rest = []
      · rw [if_neg (by simp [hrest]), wp_bind]
        simp only [hpos, hpos.ne', hfull, hrest, lt_irrefl, if_true, false_imp_iff, forall_const,
          true_and]
        rfl
      · rw [if_pos (by simp [hrest]), wp_pure]
        simp [hpos, hpos.ne', hfull, hrest]

end

end Symbolic

section Conservation

/-- A connected socket holds the listed data frames in its write queue, and what was sent and what
waits there is what was accepted. -/
structure Sending (w : World Dgram π) (q : List FrameId) : Prop extends Holds w q where
  connect : w.socket.connect = true
  sendable : ∀ f ∈ q, (w.heap f).Sendable
  bytes : Stream.sentBytes w.trace ++ q.flatMap (fun f => (w.heap f).pendingBytes) =
    Stream.acceptedBytes dataOnly w.trace

/-- What sending leaves alone: the frames of the user, the size of each frame and what was
accepted. -/
structure Untouched (w w' : World Dgram π) : Prop where
  proto : w'.proto = w.proto
  user : ∀ g, w.owner g = .user → w'.owner g = .user ∧ w'.heap g = w.heap g
  capacity : ∀ g, (w'.heap g).capacity = (w.heap g).capacity
  accepted : Stream.acceptedBytes dataOnly w'.trace = Stream.acceptedBytes dataOnly w.trace

instance : IsPreorder (World Dgram π) Untouched where
  refl _ := ⟨rfl, fun _ h => ⟨h, rfl⟩, fun _ => rfl, rfl⟩
  trans _ _ _ h h' := ⟨h'.proto.trans h.proto, fun g hg => ⟨(h'.user g (h.user g hg).1).1,
    (h'.user g (h.user g hg).1).2.trans (h.user g hg).2⟩,
    fun g => (h'.capacity g).trans (h.capacity g), h'.accepted.trans h.accepted⟩

variable {env : Env} {d : Delegate π} {E : Fault → Prop} {w : World Dgram π} {f : FrameId}
  {q : List FrameId} {v : Vec} {rest : List Vec} {s : Dgram}

/-- An entry of the trace that is neither sent nor accepted. -/
def Unsent (x : Io) : Prop :=
  Silent x ∧ Stream.sentBytes [x] = [] ∧ Stream.acceptedBytes dataOnly [x] = []

theorem Sending.tick (h : Sending w q) : Sending w.tick q := { h with }

theorem Sending.record {x : Io} (h : Sending w q) (hx : Unsent x) : Sending (w.record x) q where
  toHolds := h.toHolds.record hx.1
  connect := h.connect
  sendable := h.sendable
  bytes := by simpa [hx.2.1, hx.2.2] using h.bytes

theorem Untouched.record {x : Io} (hx : Unsent x) : Untouched w (w.record x) :=
  ⟨rfl, fun _ hg => ⟨hg, rfl⟩, fun _ => rfl, by simp [hx.2.2]⟩

theorem Untouched.of_tick {w' : World Dgram π} (h : Untouched w.tick w') :
    Untouched w w' := { h with }

theorem Untouched.setSocket {w' : World Dgram π} (h : Untouched w w') :
    Untouched w (w'.setSocket s) :=
  { h with }

theorem Sending.setSocket (h : Sending w q) (hs : Beside w.socket s)
    (hc : s.connect = w.socket.connect) : Sending (w.setSocket s) q where
  toHolds := h.toHolds.setSocket hs
  connect := hc.trans h.connect
  sendable := h.sendable
  bytes := h.bytes

/-- A frame of the user may change. -/
theorem Sending.setFrame {x : Frame} (h : Sending w q) (ho : w.owner f = .user)
    (hx : Pool.Live x) : Sending (w.setFrame f x) q := by
  have hne : ∀ g ∈ q, g ≠ f := fun g hg e => by
    have hg := (h.writer g).mpr hg
    simp [e, ho] at hg
  have heq : ∀ g ∈ q, (w.setFrame f x).heap g = w.heap g := fun g hg => by simp [hne g hg]
  refine ⟨h.toHolds.setFrame (fun _ => hx) (by simp [ho]), h.connect, fun g hg => ?_, ?_⟩
  · exact heq g hg ▸ h.sendable g hg
  · have hp : q.flatMap (fun g => ((w.setFrame f x).heap g).pendingBytes) =
        q.flatMap fun g => (w.heap g).pendingBytes :=
      List.flatMap_congr fun g hg => by rw [heq g hg]
    exact hp ▸ h.bytes

theorem Holds.head_not_mem (h : Holds w (f :: q)) : f ∉ q :=
  (List.nodup_cons.mp h.chain.nodup).1

theorem Holds.live_head (h : Holds w (f :: q)) : Pool.Live (w.heap f) :=
  h.live f (by simp [(h.writer f).mpr])

/-- The bytes that were taken moved from the front frame to the sent ones. -/
theorem Sending.bytes_sentFrom {m : ℕ} {x : Frame} (h : Sending w (f :: q))
    (hb : (w.heap f).pendingBytes =
      slice (w.heap f).data (v.offset + v.position) m ++ x.pendingBytes) :
    Stream.sentBytes (sentFrom w f v m x).trace ++
        (f :: q).flatMap (fun g => ((sentFrom w f v m x).heap g).pendingBytes) =
      Stream.acceptedBytes dataOnly (sentFrom w f v m x).trace := by
  have hrest : q.flatMap (fun g => ((sentFrom w f v m x).heap g).pendingBytes) =
      q.flatMap fun g => (w.heap g).pendingBytes := by
    refine List.flatMap_congr fun g hg => ?_
    have hne : g ≠ f := fun e => h.head_not_mem (e ▸ hg)
    simp [sentFrom, hne]
  have hbytes := h.bytes
  rw [List.flatMap_cons, hb] at hbytes
  rw [List.flatMap_cons, hrest]
  simpa [sentFrom, Stream.sentBytes, Stream.acceptedBytes] using hbytes

theorem Holds.sentFrom {m : ℕ} {x : Frame} (h : Holds w (f :: q))
    (hx : (w.heap f).SameHeader x) : Holds (sentFrom w f v m x) (f :: q) :=
  (h.tick.record fun _ => ⟨rfl, rfl⟩).setVecs hx

theorem Sending.sentFrom {m : ℕ} {x : Frame} (h : Sending w (f :: q))
    (hx : (w.heap f).SameHeader x) (hs : x.Sendable)
    (hb : (w.heap f).pendingBytes =
      slice (w.heap f).data (v.offset + v.position) m ++ x.pendingBytes) :
    Sending (sentFrom w f v m x) (f :: q) where
  toHolds := h.toHolds.sentFrom hx
  connect := h.connect
  sendable g hg := by
    by_cases e : g = f
    · subst e
      simpa [Dgram.sentFrom] using hs
    · simpa [Dgram.sentFrom, e] using h.sendable g hg
  bytes := h.bytes_sentFrom hb

/-- The last bytes of the front frame are taken, and the frame is returned. -/
theorem Sending.frontReturned {m : ℕ} {x : Frame} (h : Sending w (f :: q))
    (hx : (w.heap f).SameHeader x) (hn : x.pendingBytes = [])
    (hb : (w.heap f).pendingBytes =
      slice (w.heap f).data (v.offset + v.position) m ++ x.pendingBytes) :
    Sending (frontReturned env (Dgram.sentFrom w f v m x) f) q := by
  have h₁ : Holds (Dgram.sentFrom w f v m x) (f :: q) := h.toHolds.sentFrom hx
  have hq := h₁.dequeue (if ((Dgram.sentFrom w f v m x).heap f).next = none then .head
    else (Dgram.sentFrom w f v m x).socket.writeFrameLast) fun _ => rfl
  have hne : ∀ g ∈ q, g ≠ f := fun g hg e => h.head_not_mem (e ▸ hg)
  have heq : ∀ g ∈ q,
      ((Dgram.frontReturned env (Dgram.sentFrom w f v m x) f).heap g) = w.heap g := by
    intro g hg
    simp [Dgram.frontReturned, World.returned, Dgram.sentFrom, hne g hg]
  refine ⟨hq.returned env.toContext, h.connect, fun g hg => ?_, ?_⟩
  · rw [heq g hg]
    exact h.sendable g (by simp [hg])
  · have hbytes := h.bytes
    rw [List.flatMap_cons, hb, hn] at hbytes
    rw [List.flatMap_congr fun g hg => by rw [heq g hg]]
    simpa [Dgram.frontReturned, World.returned, Dgram.sentFrom, Stream.sentBytes,
      Stream.acceptedBytes] using hbytes

theorem Untouched.sentFrom {m : ℕ} {x : Frame} (h : Holds w (f :: q))
    (hc : x.capacity = (w.heap f).capacity) : Untouched w (sentFrom w f v m x) where
  proto := rfl
  user g hg := by
    have hne : g ≠ f := fun e => by
      have hw := (h.writer f).mpr (by simp)
      simp [← e, hg] at hw
    exact ⟨hg, by simp [Dgram.sentFrom, hne]⟩
  capacity g := by
    by_cases e : g = f
    · subst e
      simpa [Dgram.sentFrom] using hc
    · simp [Dgram.sentFrom, e]
  accepted := by simp [Dgram.sentFrom, Stream.acceptedBytes]

theorem Untouched.frontReturned (h : Holds w (f :: q)) : Untouched w (frontReturned env w f) where
  proto := rfl
  user g hg := by
    have hne : g ≠ f := fun e => by
      have hw := (h.writer f).mpr (by simp)
      simp [← e, hg] at hw
    simp [Dgram.frontReturned, World.returned, hne, hg]
  capacity g := by
    by_cases e : g = f
    · subst e
      simp [Dgram.frontReturned, World.returned]
    · simp [Dgram.frontReturned, World.returned, e]
  accepted := by simp [Dgram.frontReturned, World.returned, Stream.acceptedBytes]

/-- What waits in the queue of the connected socket is accounted for. -/
def SendInv (w : World Dgram π) : Prop := ∃ q, Sending w q

theorem sending_ask {α : Type} (r : ℕ → α) :
    Preserves E SendInv Untouched (ask (σ := Dgram) (π := π) r) :=
  fun _ ⟨q, h⟩ => ⟨⟨q, h.tick⟩, rfl, fun _ hg => ⟨hg, rfl⟩, fun _ => rfl, rfl⟩

theorem sending_record {x : Io} (hx : Unsent x) :
    Preserves E SendInv Untouched (FrameTransporter.record (σ := Dgram) (π := π) x) :=
  fun _ ⟨q, h⟩ => ⟨⟨q, h.record hx⟩, .record hx⟩

theorem sending_beside {g : Dgram → Dgram} (hg : ∀ s, Beside s (g s) ∧ (g s).connect = s.connect) :
    Preserves E SendInv Untouched (modifySocket (π := π) g) := fun w ⟨q, h⟩ =>
  ⟨⟨q, h.setSocket (hg w.socket).1 (hg w.socket).2⟩, rfl, fun _ h => ⟨h, rfl⟩, fun _ => rfl, rfl⟩

theorem connect_awaitWrite (s : Dgram) : (awaitWrite s).connect = s.connect := by
  rw [awaitWrite, writeSetEvent_eq]

theorem sending_writeSetEvent (e : Finset WriteEvent) :
    Preserves E SendInv Untouched (modifySocket (π := π) (writeSetEvent e)) :=
  sending_beside fun s => ⟨beside_writeSetEvent e s, by rw [writeSetEvent_eq]⟩

theorem sending_writeUnsetEvent (e : Finset WriteEvent) :
    Preserves E SendInv Untouched (modifySocket (π := π) (writeUnsetEvent e)) :=
  sending_beside fun s => ⟨beside_writeUnsetEvent e s, by rw [writeUnsetEvent_eq]⟩

theorem sending_awaitWrite : Preserves E SendInv Untouched (modifySocket (π := π) awaitWrite) :=
  sending_beside fun s => ⟨beside_awaitWrite s, connect_awaitWrite s⟩

/-- An error closes the socket, and its frames stay in the queue. -/
theorem sending_error (hd : Preserves E SendInv Untouched d.error) (e : Errno) :
    Preserves E SendInv Untouched (error env d e) := by
  refine (sending_beside fun s => ?_).bind fun _ => preserves_getSocket_bind fun w hw => ?_
  · exact ⟨⟨rfl, rfl, id, rfl⟩, rfl⟩
  refine ((sending_record ⟨fun g => ⟨rfl, rfl⟩, rfl, rfl⟩).bind fun _ => hd.bind fun _ => ?_) w hw
  refine Preserves.bind (Preserves.bind (sending_beside fun s => ?_) fun _ => preserves_pure _)
    fun _ => (sending_ask _).bind fun now => (sending_beside fun s => ?_).bind fun _ =>
      (sending_record ⟨fun g => ⟨rfl, rfl⟩, rfl, rfl⟩).bind fun _ => Preserves.when _ (by rintro ⟨⟩)
  · exact ⟨beside_readUnsetEvent _ s, by rw [readUnsetEvent_eq]⟩
  · exact ⟨⟨rfl, rfl, fun _ => rfl, rfl⟩, rfl⟩

theorem sendFailed_sends (hd : Preserves E SendInv Untouched d.error) (e : Errno)
    (h : Sending w q) :
    wp E (sendFailed env d f e) (fun _ w' => SendInv w' ∧ Untouched w w') w := by
  have hs : Beside w.socket { w.socket with writeReady := false } := ⟨rfl, rfl, id, rfl⟩
  have h₁ : Sending (w.setSocket { w.socket with writeReady := false }) q := h.setSocket hs rfl
  have l₁ : Untouched w (w.setSocket { w.socket with writeReady := false }) :=
    ⟨rfl, fun _ hg => ⟨hg, rfl⟩, fun _ => rfl, rfl⟩
  rw [sendFailed, wp_bind, wp_modifySocket, wp_bind, wp_getSocket, wp_ite, wp_ite]
  refine ⟨fun _ => ?_, fun _ => ⟨fun _ => ?_, fun hc => absurd h.connect hc⟩⟩
  · exact wp_mono (sending_writeSetEvent _ _ ⟨q, h₁⟩) fun _ _ h' =>
      ⟨h'.1, trans_of Untouched l₁ h'.2⟩
  · exact wp_mono (sending_error hd e _ ⟨q, h₁⟩) fun _ _ h' => ⟨h'.1, trans_of Untouched l₁ h'.2⟩

theorem writeVec_sends (hd : Preserves E SendInv Untouched d.error) (h : Sending w (f :: q)) :
    wp E (writeVec env d f) (fun _ w' => SendInv w' ∧ Untouched w w') w := by
  have hx := h.sendable f (by simp)
  obtain ⟨v, rest, hv, hlt, hcap⟩ := hx.cursor
  cases hr : env.sendmsg w.socket (w.heap f) w.clock with
  | failed e =>
    rw [wp_writeVec_failed hx.msgControl hv hlt hr]
    have hu : Unsent (.send []) := ⟨fun g => ⟨rfl, rfl⟩, rfl, rfl⟩
    exact wp_mono (sendFailed_sends hd e (h.tick.record hu)) fun _ _ h' =>
      ⟨h'.1, trans_of Untouched (Untouched.record hu).of_tick h'.2⟩
  | sent n =>
    obtain ⟨m, hm⟩ : ∃ m, min n (v.limit - v.position) = m := ⟨_, rfl⟩
    rw [wp_writeVec_sent hx.msgControl hv hlt hcap hr hm]
    refine ⟨fun _ => ?_, fun _ hpart => ?_, fun _ hfull => ?_⟩
    · have hu : Unsent (.send []) := ⟨fun g => ⟨rfl, rfl⟩, rfl, rfl⟩
      exact ⟨⟨_, (h.tick.record hu).setSocket (beside_awaitWrite _) (connect_awaitWrite _)⟩,
        (Untouched.record hu).of_tick.setSocket⟩
    · have hsame : (w.heap f).SameHeader ((w.heap f).advanced v m) := ⟨rfl, rfl, rfl, rfl⟩
      have hb := Frame.pendingBytes_advanced hv hpart.le
      have h₁ := h.sentFrom hsame (hx.advanced hv hpart) hb
      have l₁ : Untouched w (sentFrom w f v m ((w.heap f).advanced v m)) := .sentFrom h.toHolds rfl
      exact ⟨⟨_, h₁.setSocket (beside_awaitWrite _) (connect_awaitWrite _)⟩, l₁.setSocket⟩
    · have hsame : (w.heap f).SameHeader ((w.heap f).passed v m) := ⟨rfl, rfl, rfl, rfl⟩
      have hb := Frame.pendingBytes_passed hv hfull
      have l₁ : Untouched w (sentFrom w f v m ((w.heap f).passed v m)) := .sentFrom h.toHolds rfl
      split_ifs with hrest
      · subst hrest
        have h₁ := h.toHolds.sentFrom (v := v) (m := m) hsame
        have hn : ((w.heap f).passed v m).pendingBytes = [] := Frame.pendingBytes_passed_nil hv
        rw [wp_returnWriteFrame h₁.live_head]
        exact ⟨⟨q, h.frontReturned hsame hn hb⟩, trans_of Untouched l₁ (.frontReturned h₁)⟩
      · exact ⟨⟨_, h.sentFrom hsame (hx.passed hv hrest) hb⟩, l₁⟩

theorem sending_writeLoop (hd : Preserves E SendInv Untouched d.error) (n : ℕ) :
    Preserves E SendInv Untouched (writeLoop env d n) := by
  induction n with
  | zero =>
    refine preserves_getSocket_bind fun w hw => ?_
    exact Preserves.when _ (fun _ => sending_awaitWrite) w hw
  | succ n ih =>
    refine preserves_getSocket_bind fun w hw => ?_
    cases hf : w.socket.writeFrames with
    | none => exact preserves_pure _ w hw
    | some f =>
      obtain ⟨q, h⟩ := hw
      obtain ⟨q, rfl, -⟩ := (hf ▸ h.chain).exists_cons
      dsimp only
      rw [wp_bind, wp_getFrame, if_neg (h.sendable f (by simp)).type, wp_bind]
      refine wp_mono (writeVec_sends hd h) ?_
      rintro more w₁ ⟨h₁, l₁⟩
      rw [wp_ite]
      refine ⟨fun _ => wp_mono (ih w₁ h₁) fun _ _ h' => ⟨h'.1, trans_of Untouched l₁ h'.2⟩,
        fun _ => ?_⟩
      exact ⟨h₁, l₁⟩

theorem writeReal_sends (hd : Preserves E SendInv Untouched d.error) (h : SendInv w)
    (hr : w.socket.writeReady = true) :
    wp E (writeReal env d) (fun _ w' => SendInv w' ∧ Untouched w w') w := by
  rw [writeReal, wp_bind, wp_getSocket, if_neg (by simp [hr])]
  exact sending_writeLoop hd _ w h

/-- The write event. -/
theorem sending_onWrite (hd : Preserves E SendInv Untouched d.error) :
    Preserves E SendInv Untouched (onWrite env d) := by
  refine preserves_getSocket_bind fun w hw => Preserves.when _ (fun _ => ?_) w hw
  rintro w ⟨q, h⟩
  have h₁ : SendInv (w.setSocket { w.socket with writeReady := true }) :=
    ⟨q, h.setSocket ⟨rfl, rfl, id, rfl⟩ rfl⟩
  have l₁ : Untouched w (w.setSocket { w.socket with writeReady := true }) :=
    (refl_of Untouched w).setSocket
  rw [onWriteEvent, wp_bind, wp_modifySocket, wp_bind, wp_getSocket, wp_ite]
  refine ⟨fun _ => ?_, fun _ => ?_⟩
  · obtain ⟨q, h₁⟩ := h₁
    have h₂ : SendInv ((w.setSocket { w.socket with writeReady := true }).setSocket
        { w.socket with
          writeReady := true, writeEvents := w.socket.writeEvents \ {.WRITE_WANT_WRITE} }) :=
      ⟨q, h₁.setSocket ⟨rfl, rfl, id, rfl⟩ rfl⟩
    rw [wp_bind, wp_modifySocket, wp_bind]
    refine wp_mono (writeReal_sends hd h₂ rfl) ?_
    rintro _ w₃ ⟨h₃, l₃⟩
    rw [wp_bind, wp_getSocket]
    refine wp_mono (Preserves.when _ (fun _ => sending_writeUnsetEvent _) w₃ h₃) ?_
    exact fun _ _ h' => ⟨h'.1, trans_of Untouched (trans_of Untouched l₁.setSocket l₃) h'.2⟩
  · exact wp_mono (sending_writeUnsetEvent _ _ h₁) fun _ _ h' => ⟨h'.1, trans_of Untouched l₁ h'.2⟩

/-- A flush, however many rounds it makes. -/
theorem sending_flushLoop (hd : Preserves E SendInv Untouched d.error) (n : ℕ) :
    Preserves E SendInv Untouched (flushLoop env d n) := by
  induction n with
  | zero => exact preserves_getSocket_bind fun w hw => preserves_pure _ w hw
  | succ n ih =>
    refine preserves_getSocket_bind fun w hw => Preserves.ite _ (fun _ => preserves_pure _)
      (fun _ => ?_) w hw
    rintro w ⟨q, h⟩
    have h₁ : SendInv (w.setSocket { w.socket with writeReady := true }) :=
      ⟨q, h.setSocket ⟨rfl, rfl, id, rfl⟩ rfl⟩
    rw [wp_bind, wp_modifySocket, wp_bind]
    refine wp_mono (writeReal_sends hd h₁ rfl) ?_
    rintro _ w₂ ⟨h₂, l₂⟩
    refine wp_mono (ih w₂ h₂) fun _ _ h' => ⟨h'.1, ?_⟩
    exact trans_of Untouched (trans_of Untouched (refl_of Untouched w).setSocket l₂) h'.2

theorem sending_flush (hd : Preserves E SendInv Untouched d.error) (n : ℕ) :
    Preserves E SendInv Untouched (flush env d n) := by
  refine preserves_getSocket_bind fun w hw => Preserves.ite _ (fun _ => preserves_pure _)
    (fun _ => (sending_flushLoop hd n).bind fun done => ?_) w hw
  refine (Preserves.when (done = true) fun _ => sending_beside fun s => ?_).bind fun _ =>
    preserves_pure _
  exact ⟨⟨rfl, rfl, id, rfl⟩, rfl⟩

/-- What a write of the frame leaves alone, and the bytes that it accepts. -/
structure Accepted (f : FrameId) (w w' : World Dgram π) : Prop where
  proto : w'.proto = w.proto
  user : ∀ g, g ≠ f → w.owner g = .user → w'.owner g = .user ∧ w'.heap g = w.heap g
  capacity : ∀ g, (w'.heap g).capacity = (w.heap g).capacity
  bytes : Stream.acceptedBytes dataOnly w'.trace =
    Stream.acceptedBytes dataOnly w.trace ++ (w.heap f).pendingBytes

theorem Accepted.trans {w₁ w₂ : World Dgram π} (h : Accepted f w w₁) (h' : Untouched w₁ w₂) :
    Accepted f w w₂ where
  proto := h'.proto.trans h.proto
  user g hne hg :=
    have hu := h.user g hne hg
    ⟨(h'.user g hu.1).1, (h'.user g hu.1).2.trans hu.2⟩
  capacity g := (h'.capacity g).trans (h.capacity g)
  bytes := h'.accepted.trans h.bytes

/-- A sendable frame of the user is queued. -/
theorem Sending.enqueue (h : Sending w q) (ho : w.socket.writeOpen = true)
    (hf : w.owner f = .user) (hx : (w.heap f).Sendable) :
    Sending (queued w f) (q ++ [f]) ∧ Accepted f w (queued w f) := by
  have hfq : f ∉ q := fun hm => by simpa [hf] using (h.writer f).mpr hm
  have hpend : ∀ g, ((queued w f).heap g).pendingBytes = (w.heap g).pendingBytes := fun _ => rfl
  refine ⟨⟨h.toHolds.enqueue ho hf, h.connect, fun g hg => ?_, ?_⟩, rfl, fun g hne hg => ?_,
    fun _ => rfl, ?_⟩
  · have hs : (w.heap g).Sendable := by
      rcases List.mem_append.mp hg with hg | hg
      · exact h.sendable g hg
      · exact List.mem_singleton.mp hg ▸ hx
    exact ⟨hs.type, hs.msgControl, hs.rest, hs.vecs⟩
  · have hb := h.bytes
    simp only [hpend]
    simp only [queued, World.record_trace, World.setOwner_trace, World.setSocket_trace,
      World.enqueue_trace, List.flatMap_append, Stream.sentBytes_append,
      Stream.acceptedBytes_append, ← hb]
    simp [Stream.sentBytes, Stream.acceptedBytes, dataOnly, hx.type]
  · exact ⟨by simpa [queued, hne] using hg, h.heap_queued ho (by simp [hg]) hne⟩
  · simp [queued, Stream.acceptedBytes, dataOnly, hx.type]

/-- A closed socket refuses a data frame. -/
theorem wp_write_closed {Q : Bool → World Dgram π → Prop} (ho : w.socket.writeOpen = false)
    (ht : (w.heap f).type ≠ .endOfStream) : wp E (write env d f) Q w ↔ Q false w := by
  rw [write, wp_bind, wp_getSocket, wp_bind, wp_getFrame, if_pos ho, if_neg ht, wp_pure]

/-- An open socket accepts a sendable frame of the user. -/
theorem write_sends (hd : Preserves E SendInv Untouched d.error) (h : SendInv w)
    (ho : w.socket.writeOpen = true) (hf : w.owner f = .user) (hx : (w.heap f).Sendable) :
    wp E (write env d f) (fun ok w' => ok = true ∧ SendInv w' ∧ Accepted f w w') w := by
  obtain ⟨q, h⟩ := h
  obtain ⟨h₁, l₁⟩ := h.enqueue ho hf hx
  rw [write, wp_bind, wp_getSocket, wp_bind, wp_getFrame, if_neg (by simp [ho]), wp_bind,
    wp_enqueueFrame, wp_ite]
  refine ⟨fun _ => ?_, fun hr => ?_⟩
  · rw [wp_bind]
    refine wp_mono (sending_writeSetEvent _ _ ⟨_, h₁⟩) fun _ _ h' => ?_
    exact ⟨rfl, h'.1, l₁.trans h'.2⟩
  · rw [wp_bind]
    have hr : (queued w f).socket.writeReady = true := by simpa [queued] using hr
    exact wp_mono (writeReal_sends hd ⟨_, h₁⟩ hr) fun _ _ h' => ⟨rfl, h'.1, l₁.trans h'.2⟩

end Conservation

end Dgram

end FrameTransporter
