import FrameTransporter.Sock.Dgram.Release
import FrameTransporter.Sock.Stream.Feed

/-! # Datagrams leave a datagram socket open

A datagram socket stays open while it receives datagrams, and it hands each of
them over in one frame. The delegate and the application may do all but ask for a
shutdown. Only an empty datagram, which the read loop takes for an end of file,
and errors of the system close the socket from outside.
-/

namespace FrameTransporter

open Hoare Intrusive

namespace Dgram

variable {π : Type}

/-- The datagrams that `recvmsg` delivered, in order. -/
def datagrams (t : List Io) : List (List UInt8) :=
  t.flatMap fun
    | .recv _ _ bytes => if bytes = [] then [] else [bytes]
    | _ => []

/-- The contents of the frames that the delegate was given, in order. -/
def given (t : List Io) : List (List UInt8) :=
  t.flatMap fun
    | .read _ bytes _ _ => [bytes]
    | _ => []

/-- The contents of the frames that the delegate took, in order. -/
def handed (t : List Io) : List (List UInt8) :=
  t.flatMap fun
    | .read _ bytes taken _ => if taken then [bytes] else []
    | _ => []

@[simp] theorem datagrams_append (t u : List Io) :
    datagrams (t ++ u) = datagrams t ++ datagrams u := List.flatMap_append

@[simp] theorem given_append (t u : List Io) : given (t ++ u) = given t ++ given u :=
  List.flatMap_append

@[simp] theorem handed_append (t u : List Io) : handed (t ++ u) = handed t ++ handed u :=
  List.flatMap_append

/-- Each given frame ends with the datagrams that were received since the frame before it, and the
waiting ones were received since the last one. -/
def Given (waiting : List (List UInt8)) (t : List Io) : Prop :=
  ∃ groups : List (List (List UInt8)), datagrams t = groups.flatten ++ waiting ∧
    List.Forall₂ (fun group bytes => group.flatten <:+ bytes) groups (given t)

/-- The frames that were taken hold all datagrams but the waiting ones, and nothing else. -/
def HandedOver (waiting : List (List UInt8)) (t : List Io) : Prop :=
  ∃ groups : List (List (List UInt8)),
    datagrams t = groups.flatten ++ waiting ∧ handed t = groups.map List.flatten

/-- Every datagram is new in just one frame that the delegate was given, in order, or waits in the
read frame to be given. -/
def Delivered (w : World Dgram π) : Prop :=
  ∃ waiting, Given waiting w.trace ∧
    match w.socket.readFrame with
    | none => waiting = []
    | some f => waiting.flatten <:+ (w.heap f).contents

/-- Every datagram is in just one frame that the delegate took, in order, or in the read frame, and
these frames hold nothing else. -/
def Conserved (w : World Dgram π) : Prop :=
  ∃ waiting, HandedOver waiting w.trace ∧
    match w.socket.readFrame with
    | none => waiting = []
    | some f => (w.heap f).contents = waiting.flatten

/-- The socket is open, and no end of its input was noticed. -/
structure Served (w : World Dgram π) : Prop where
  shutdown : w.socket.shutdown = false
  writeOpen : w.socket.writeOpen = true
  readEnd : ∀ eos, .readEnd eos ∉ w.trace

/-- A system without errors that receives no empty datagram. A message that cannot be sent is an
error of connected sockets only. -/
structure Env.Undisturbed (env : Env) : Prop where
  received : ∀ s n e, env.recvmsg s n = .failed e → e = .EAGAIN
  nonempty : ∀ s n bytes namelen, env.recvmsg s n = .datagram bytes namelen → bytes ≠ []
  sent : ∀ s x n e, env.sendmsg s x n = .failed e → e.Retryable ∨ s.connect = false

/-- What asks for a shutdown: the control code, an end-of-stream frame that is written, or an error
of the event loop. -/
def Event.Closes (w : World Dgram π) : Event → Prop
  | .call (.cntl codes) => .SHUTDOWN ∈ codes
  | .call (.write f) => (w.heap f).type = .endOfStream
  | .error => True
  | _ => False

instance (w : World Dgram π) : (e : Event) → Decidable (e.Closes w)
  | .call (.cntl codes) => inferInstanceAs (Decidable (Cntl.SHUTDOWN ∈ codes))
  | .call (.write f) => inferInstanceAs (Decidable ((w.heap f).type = .endOfStream))
  | .error => inferInstanceAs (Decidable True)
  | .call .bind | .call .connect | .call (.borrow _) | .call (.frameReturn _) | .call (.fill ..)
  | .read | .write => inferInstanceAs (Decidable False)

/-- Runs in which nobody asks for a shutdown. -/
abbrev Unasked (w : World Dgram π) (e : Event) : Prop := ¬e.Closes w

/-- A user makes an end-of-stream frame. -/
def Event.MakesEndOfStream : Event → Prop
  | .call (.borrow type) | .call (.fill _ type ..) => type = .endOfStream
  | _ => False

/-- The open socket, with frames of full size. If users make no end-of-stream frames, then there are
none and none was offered. -/
structure Open (a : Prop) (w : World Dgram π) : Prop extends Served w where
  capacity : ∀ f, (w.heap f).capacity = FRAME_SIZE
  typed : a → ∀ f, w.owner f ≠ .pool → (w.heap f).type ≠ .endOfStream
  offers : a → ∀ f, .offer f .endOfStream ∉ w.trace

/-- Beside the read loop the read frame stays as it is, and nothing is received or handed over. -/
structure Unread (w w' : World Dgram π) : Prop where
  readFrame : w'.socket.readFrame = w.socket.readFrame
  heap : ∀ f, w.owner f = .reader → w'.owner f = .reader ∧ w'.heap f = w.heap f
  datagrams : datagrams w'.trace = datagrams w.trace
  given : given w'.trace = given w.trace
  handed : handed w'.trace = handed w.trace

instance : IsPreorder (World Dgram π) Unread where
  refl _ := ⟨rfl, fun _ h => ⟨h, rfl⟩, rfl, rfl, rfl⟩
  trans _ _ _ h h' := ⟨h'.readFrame.trans h.readFrame,
    fun f hf => ⟨(h'.heap f (h.heap f hf).1).1,
      (h'.heap f (h.heap f hf).1).2.trans (h.heap f hf).2⟩,
    h'.datagrams.trans h.datagrams, h'.given.trans h.given, h'.handed.trans h.handed⟩

theorem capacity_withoutControl (x : Frame) : x.withoutControl.capacity = x.capacity := by
  unfold Frame.withoutControl
  split <;> rfl

section Steps

variable {a : Prop} {w₀ w : World Dgram π} {f : FrameId} {x : Frame} {s : Dgram}

/-- An entry that neither opens nor ends the input of a socket. -/
def Plain (x : Io) : Prop :=
  (∀ eos, x ≠ .readEnd eos) ∧ (∀ f type, x ≠ .offer f type) ∧ datagrams [x] = [] ∧
    given [x] = [] ∧ handed [x] = []

/-- A change of the socket beside the flags and the read frame. -/
structure Calm (s s' : Dgram) : Prop where
  shutdown : s'.shutdown = s.shutdown
  writeOpen : s'.writeOpen = s.writeOpen
  readFrame : s'.readFrame = s.readFrame

/-- The socket is open, and it was left alone since the state `w₀`. -/
structure Steady (a : Prop) (w₀ w : World Dgram π) : Prop extends Open a w, Unread w₀ w

theorem Open.steady (h : Open a w) : Steady a w w := ⟨h, refl_of Unread w⟩

theorem Steady.tick (h : Steady a w₀ w) : Steady a w₀ w.tick := { h with }

theorem Open.setSocket (h : Open a w) (hs : s.shutdown = w.socket.shutdown)
    (ho : s.writeOpen = w.socket.writeOpen) : Open a (w.setSocket s) where
  __ := h
  shutdown := hs.trans h.shutdown
  writeOpen := ho.trans h.writeOpen

theorem Steady.setSocket (h : Steady a w₀ w) (hs : Calm w.socket s) :
    Steady a w₀ (w.setSocket s) where
  __ := h
  toOpen := h.toOpen.setSocket hs.shutdown hs.writeOpen
  readFrame := hs.readFrame.trans h.readFrame

theorem Open.record {y : Io} (h : Open a w) (hy : ∀ eos, y ≠ .readEnd eos)
    (ho : a → ∀ f, y ≠ .offer f .endOfStream) : Open a (w.record y) where
  __ := h
  readEnd eos hm := by
    rcases List.mem_append.mp hm with hm | hm
    · exact h.readEnd eos hm
    · exact hy eos (List.mem_singleton.mp hm).symm
  offers ha f hm := by
    rcases List.mem_append.mp hm with hm | hm
    · exact h.offers ha f hm
    · exact ho ha f (List.mem_singleton.mp hm).symm

theorem Steady.record {y : Io} (h : Steady a w₀ w) (hy : Plain y) :
    Steady a w₀ (w.record y) where
  __ := h
  toOpen := h.toOpen.record hy.1 fun _ f => hy.2.1 f _
  datagrams := by simpa [hy.2.2.1] using h.datagrams
  given := by simpa [hy.2.2.2.1] using h.given
  handed := by simpa [hy.2.2.2.2] using h.handed

theorem Open.setFrame (h : Open a w) (hc : x.capacity = FRAME_SIZE)
    (ht : a → w.owner f ≠ .pool → x.type ≠ .endOfStream) : Open a (w.setFrame f x) where
  __ := h
  capacity g := by
    by_cases e : g = f
    · subst e
      simpa using hc
    · simpa [e] using h.capacity g
  typed ha g hg := by
    by_cases e : g = f
    · subst e
      simpa using ht ha hg
    · simpa [e] using h.typed ha g hg

theorem Open.setOwner {o : Owner} (h : Open a w)
    (ht : a → o ≠ .pool → (w.heap f).type ≠ .endOfStream) : Open a (w.setOwner f o) where
  __ := h
  typed ha g hg := by
    by_cases e : g = f
    · subst e
      exact ht ha (by simpa using hg)
    · exact h.typed ha g (by simpa [e] using hg)

theorem Steady.setFrame (h : Steady a w₀ w) (ho : w.owner f ≠ .reader)
    (hc : x.capacity = FRAME_SIZE) (ht : a → w.owner f ≠ .pool → x.type ≠ .endOfStream) :
    Steady a w₀ (w.setFrame f x) where
  __ := h
  toOpen := h.toOpen.setFrame hc ht
  heap g hg := by
    obtain ⟨hr, hx⟩ := h.heap g hg
    have e : g ≠ f := by
      rintro rfl
      exact ho hr
    exact ⟨hr, by simpa [e] using hx⟩

theorem Steady.setOwner {o : Owner} (h : Steady a w₀ w) (ho : w.owner f ≠ .reader)
    (ht : a → o ≠ .pool → (w.heap f).type ≠ .endOfStream) : Steady a w₀ (w.setOwner f o) where
  __ := h
  toOpen := h.toOpen.setOwner ht
  heap g hg := by
    obtain ⟨hr, hx⟩ := h.heap g hg
    have e : g ≠ f := by
      rintro rfl
      exact ho hr
    exact ⟨by simpa [e] using hr, hx⟩

/-- A frame that is neither free nor read keeps its header and its size. -/
theorem Steady.setVecs (h : Steady a w₀ w) (ho : w.owner f = .writer)
    (hx : (w.heap f).SameHeader x) (hc : x.capacity = (w.heap f).capacity) :
    Steady a w₀ (w.setFrame f x) :=
  h.setFrame (by simp [ho]) (hc.trans (h.capacity f)) fun ha hp => by
    rw [hx.type]
    exact h.typed ha f hp

theorem Steady.returned (ctx : Context) (h : Steady a w₀ w) (ho : w.owner f ≠ .reader) :
    Steady a w₀ (w.returned ctx f) := by
  have h₁ := h.tick.setOwner (f := f) (o := .pool) ho (fun _ hp => absurd rfl hp)
  have h₂ := h₁.setFrame (f := f) (x := { w.heap f with
    type := .free, next := ctx.availableFrames w.clock, lastSeenByFile := none,
    lastSeenByLine := 0 }) (by simp) (h.capacity f) (by simp)
  exact h₂.record (y := .frameReturn f) ⟨by simp, by simp, rfl, rfl, rfl⟩

end Steps

section Functions

variable {env : Env} {d : Delegate π} {a : Prop} {w₀ w : World Dgram π} {f : FrameId}
  {q : List FrameId}

/-- The socket keeps hold of its frames and is open. -/
abbrev Serving (a : Prop) (w : World Dgram π) : Prop := Inv w ∧ Open a w

/-- What leaves the socket open, and its read side as it is. -/
abbrev Serves {α : Type} (a : Prop) (m : DgramM π α) : Prop :=
  Preserves Admitted (Serving (π := π) a) Unread m

/-- What keeps hold of the frames serves if it keeps the socket steady. -/
theorem Serves.of_holding {α : Type} {m : DgramM π α} (hm : Holding Admitted m)
    (h : ∀ w, Serving a w → wp Admitted m (fun _ w' => Steady a w w') w) : Serves a m := by
  intro w hw
  refine wp_mono (wp_and (hm w hw.1) (h w hw)) ?_
  rintro _ w' ⟨⟨hi, _⟩, hs⟩
  exact ⟨⟨hi, hs.toOpen⟩, hs.toUnread⟩

theorem calm_readSetEvent (e : Finset ReadEvent) (s : Dgram) : Calm s (readSetEvent e s) := by
  rw [readSetEvent_eq]
  exact ⟨rfl, rfl, rfl⟩

theorem calm_readUnsetEvent (e : Finset ReadEvent) (s : Dgram) : Calm s (readUnsetEvent e s) := by
  rw [readUnsetEvent_eq]
  exact ⟨rfl, rfl, rfl⟩

theorem calm_writeSetEvent (e : Finset WriteEvent) (s : Dgram) : Calm s (writeSetEvent e s) := by
  rw [writeSetEvent_eq]
  exact ⟨rfl, rfl, rfl⟩

theorem calm_writeUnsetEvent (e : Finset WriteEvent) (s : Dgram) :
    Calm s (writeUnsetEvent e s) := by
  rw [writeUnsetEvent_eq]
  exact ⟨rfl, rfl, rfl⟩

theorem calm_awaitWrite (s : Dgram) : Calm s (awaitWrite s) := by
  obtain ⟨h, ho, hf⟩ := calm_writeSetEvent {.WRITE_WANT_WRITE} { s with writeReady := false }
  exact ⟨h, ho, hf⟩

theorem serves_modifySocket {g : Dgram → Dgram} (hb : ∀ s, Beside s (g s))
    (hc : ∀ s, Calm s (g s)) : Serves a (modifySocket (π := π) g) :=
  .of_holding (holding_beside hb) fun _ hw => hw.2.steady.setSocket (hc _)

theorem serves_cntlReadPause (on : Bool) : Serves a (cntlReadPause (π := π) on) := by
  refine preserves_getSocket_bind fun w hw => ?_
  cases on with
  | true =>
    refine ((serves_modifySocket (fun s => ?_) fun s => ?_).bind fun _ => (Preserves.when _ fun _ =>
      serves_modifySocket (beside_readUnsetEvent ∅) (calm_readUnsetEvent ∅)).bind fun _ =>
        preserves_pure _) w hw
    · exact ⟨rfl, rfl, id, rfl⟩
    · exact ⟨rfl, rfl, rfl⟩
  | false =>
    refine (Preserves.ite _ (fun _ => preserves_throw (by simp [Admitted])) fun _ =>
      (serves_modifySocket (fun s => ?_) fun s => ?_).bind fun _ => (Preserves.when _ fun _ =>
        serves_modifySocket (beside_readSetEvent ∅) (calm_readSetEvent ∅)).bind fun _ =>
          preserves_pure _) w hw
    · exact ⟨rfl, rfl, id, rfl⟩
    · exact ⟨rfl, rfl, rfl⟩

/-- Every control but a shutdown leaves the socket open. -/
theorem serves_cntlCode {c : Cntl} (hc : c ≠ .SHUTDOWN) : Serves a (cntlCode env d c) := by
  cases c with
  | READ_START =>
    exact (serves_modifySocket (beside_readSetEvent _) (calm_readSetEvent _)).bind
      fun _ => preserves_pure _
  | READ_STOP =>
    exact (serves_modifySocket (beside_readUnsetEvent _) (calm_readUnsetEvent _)).bind
      fun _ => preserves_pure _
  | READ_PAUSE => exact serves_cntlReadPause true
  | READ_RESUME => exact serves_cntlReadPause false
  | WRITE_START =>
    exact (serves_modifySocket (beside_writeSetEvent _) (calm_writeSetEvent _)).bind
      fun _ => preserves_pure _
  | WRITE_STOP =>
    exact (serves_modifySocket (beside_writeUnsetEvent _) (calm_writeUnsetEvent _)).bind
      fun _ => preserves_pure _
  | SHUTDOWN => exact absurd rfl hc

theorem serves_ask {α : Type} (r : ℕ → α) : Serves a (ask (σ := Dgram) (π := π) r) :=
  .of_holding (.of_keeping fun _ => keeping_ask r) fun _ hw => hw.2.steady.tick

theorem serves_dgramBind : Serves a (dgramBind (π := π) env) := by
  refine preserves_getSocket_bind fun w hw => ((serves_ask _).bind fun ok => Preserves.ite _
    (fun _ => ?_) fun _ => preserves_pure _) w hw
  refine (serves_modifySocket (fun s => ?_) fun s => ?_).bind fun _ =>
    (serves_modifySocket (beside_readSetEvent _) (calm_readSetEvent _)).bind
      fun _ => preserves_pure _
  · exact ⟨rfl, rfl, id, rfl⟩
  · exact ⟨rfl, rfl, rfl⟩

theorem serves_dgramConnect : Serves a (dgramConnect (π := π) env) := by
  refine preserves_getSocket_bind fun w hw => ((serves_ask _).bind fun ok => Preserves.ite _
    (fun _ => ?_) fun _ => preserves_pure _) w hw
  refine (serves_modifySocket (fun s => ?_) fun s => ?_).bind fun _ =>
    (serves_modifySocket (beside_writeSetEvent _) (calm_writeSetEvent _)).bind
      fun _ => preserves_pure _
  · exact ⟨rfl, rfl, id, rfl⟩
  · exact ⟨rfl, rfl, rfl⟩

/-- A borrowed frame has the wanted type, and no vectors. -/
theorem poolBorrow_steady (ctx : Context) {type : FrameType} {file : String} {line : ℕ}
    (h : Open a w) (ht : a → type ≠ .endOfStream) :
    wp Admitted (poolBorrow ctx type file line) (fun _ w' => Steady a w w') w := by
  have hs := h.steady.tick
  rw [poolBorrow, wp_bind, wp_ask, wp_bind, wp_get]
  cases ctx.framePool w.clock with
  | none => exact hs
  | some f =>
    dsimp only
    rw [wp_ite]
    refine ⟨fun ho => ?_, fun _ => hs⟩
    have ho : w.owner f = .pool := ho
    have h₁ := hs.setFrame (f := f) (x := Pool.resetFrame (w.heap f) type file line)
      (by simp [ho]) (h.capacity f) (fun _ hp => absurd ho hp)
    exact h₁.setOwner (f := f) (o := .user) (by simp [ho])
      (fun ha _ => by simpa [Pool.resetFrame] using ht ha)

theorem frameReturn_steady {ctx : Context} (h : Steady a w₀ w) (hl : Pool.Live (w.heap f))
    (ho : w.owner f ≠ .reader) :
    wp Admitted (frameReturn ctx f) (fun _ w' => Steady a w₀ w') w := by
  rw [wp_frameReturn hl]
  exact h.returned ctx ho

/-- The front frame of the queue goes back to the pool. -/
theorem returnWriteFrame_steady (h : Steady a w₀ w) (hl : Pool.Live (w.heap f))
    (ho : w.owner f ≠ .reader) :
    wp Admitted (returnWriteFrame env f) (fun _ w' => Steady a w₀ w') w := by
  rw [returnWriteFrame, wp_bind, wp_getFrame, wp_bind, wp_modifySocket, giveBack, wp_bind,
    wp_record]
  have h₁ := (h.setSocket (s := { w.socket with
    writeFrames := (w.heap f).next
    writeFrameLast := if (w.heap f).next = none then .head else w.socket.writeFrameLast })
      ⟨rfl, rfl, rfl⟩).record (y := .release f 'W') ⟨by simp, by simp, rfl, rfl, rfl⟩
  exact frameReturn_steady h₁ hl ho

/-- A message that could not be sent waits, or is given up. -/
theorem sendFailed_steady {e : Errno} (h : Steady a w₀ w) (hl : Pool.Live (w.heap f))
    (ho : w.owner f ≠ .reader) (he : e.Retryable ∨ w.socket.connect = false) :
    wp Admitted (sendFailed env d f e) (fun _ w' => Steady a w₀ w') w := by
  have h₁ := h.setSocket (s := { w.socket with writeReady := false }) ⟨rfl, rfl, rfl⟩
  rw [sendFailed, wp_bind, wp_modifySocket, wp_bind, wp_getSocket, wp_ite]
  refine ⟨fun _ => h₁.setSocket (calm_writeSetEvent _ _), fun hr => ?_⟩
  rw [wp_ite]
  refine ⟨fun hc => ?_, fun _ => returnWriteFrame_steady h₁ hl ho⟩
  have hc : w.socket.connect = true := hc
  exact absurd hc (by simp [he.resolve_left hr])

theorem writeVec_steady (henv : env.Undisturbed) (h : Open a w) (hi : Holds w (f :: q)) :
    wp Admitted (writeVec env d f) (fun _ w' => Steady a w w') w := by
  have ho : w.owner f = .writer := (hi.writer f).mpr (by simp)
  have hr : w.owner f ≠ .reader := by simp [ho]
  have hl : Pool.Live (w.heap f) := hi.live f (by simp [ho])
  rw [writeVec, wp_bind, wp_getFrame, wp_bind]
  cases hv : (w.heap f).getVec with
  | error e => exact admitted_getVec hv
  | ok v =>
    rw [wp_liftM_ok]
    cases v with
    | none => exact ⟨by simp, by simp, by simp⟩
    | some v =>
      dsimp only
      rw [wp_ite]
      refine ⟨fun _ => ⟨by simp, by simp, by simp⟩, fun _ => ?_⟩
      have hx := Frame.SameHeader.withoutControl (w.heap f)
      have hcap := capacity_withoutControl (w.heap f)
      have h₁ := (h.steady.setVecs ho hx hcap).tick
      rw [wp_bind, wp_setFrame, wp_bind, transmit, wp_bind, wp_getSocket, wp_bind, wp_ask]
      cases hs : env.sendmsg (w.setFrame f (w.heap f).withoutControl).socket (w.heap f)
        (w.setFrame f (w.heap f).withoutControl).clock with
      | failed e =>
        rw [wp_bind, wp_record, wp_bind]
        refine sendFailed_steady (h₁.record (y := .send []) ⟨by simp, by simp, rfl, rfl, rfl⟩) ?_ hr
          (henv.sent _ _ _ _ hs)
        simpa using hx.live hl
      | sent n =>
        simp only [wp_bind, wp_record, wp_ite, wp_pure]
        have h₂ := h₁.record (y := .send ((slice (w.heap f).data (v.offset + v.position)
          (toSize (v.limit - v.position))).take n)) ⟨by simp, by simp, rfl, rfl, rfl⟩
        refine ⟨fun _ => h₂.setSocket (calm_awaitWrite _), fun _ => ?_⟩
        cases ha : (w.heap f).withoutControl.advanceVec v _ with
        | error e => exact admitted_advanceVec ha
        | ok x =>
          have hx₃ := hx.trans (Frame.SameHeader.of_advanceVec ha)
          have hcap₃ := (Stream.capacity_advanceVec ha).trans hcap
          have h₃ := h₂.setVecs (f := f) (x := x) ho
            (by simpa using Frame.SameHeader.of_advanceVec ha)
            (by simpa using Stream.capacity_advanceVec ha)
          rw [wp_liftM_ok, wp_bind, wp_setFrame, wp_ite]
          refine ⟨fun _ => h₃.setSocket (calm_awaitWrite _), fun _ => ?_⟩
          rw [wp_bind]
          cases hn : x.nextVec with
          | error e => exact admitted_nextVec hn
          | ok r =>
            obtain ⟨more, y⟩ := r
            have hx₄ := hx₃.trans (Frame.SameHeader.of_nextVec hn)
            have h₄ := h₃.setVecs (f := f) (x := y) ho
              (by simpa using Frame.SameHeader.of_nextVec hn)
              (by simpa using Stream.capacity_nextVec hn)
            rw [wp_liftM_ok, wp_bind, wp_setFrame, wp_ite]
            refine ⟨fun _ => h₄, fun _ => ?_⟩
            rw [wp_bind]
            exact returnWriteFrame_steady h₄ (by simpa using hx₄.live hl) hr

/-- No end-of-stream frame waits while the socket is open. -/
theorem serves_writeLoop (hd : FrameDelegate Admitted d) (henv : env.Undisturbed) (n : ℕ) :
    Serves a (writeLoop env d n) := by
  induction n with
  | zero =>
    refine preserves_getSocket_bind fun w hw => ?_
    exact Preserves.when _ (fun _ => serves_modifySocket beside_awaitWrite calm_awaitWrite) w hw
  | succ n ih =>
    refine preserves_getSocket_bind fun w hw => ?_
    cases hf : w.socket.writeFrames with
    | none => exact preserves_pure _ w hw
    | some f =>
      obtain ⟨⟨q, hi⟩, h⟩ := hw
      obtain ⟨q, rfl, -⟩ := (hf ▸ hi.chain).exists_cons
      dsimp only
      rw [wp_bind, wp_getFrame, wp_ite]
      refine ⟨fun ht => ?_, fun _ => ?_⟩
      · exact absurd h.writeOpen (by simp [(hi.closed f (by simp) ht).1])
      · rw [wp_bind]
        refine wp_mono (wp_and (writeVec_holds hd hi) (writeVec_steady henv h hi)) ?_
        rintro more w₁ ⟨⟨hi₁, _⟩, h₁⟩
        rw [wp_ite]
        refine ⟨fun _ => ?_, fun _ => ⟨⟨hi₁, h₁.toOpen⟩, h₁.toUnread⟩⟩
        refine wp_mono (ih w₁ ⟨hi₁, h₁.toOpen⟩) ?_
        rintro _ w₂ ⟨h₂, k₂⟩
        exact ⟨h₂, trans_of Unread h₁.toUnread k₂⟩

theorem serves_writeReal (hd : FrameDelegate Admitted d) (henv : env.Undisturbed) :
    Serves a (writeReal env d) :=
  preserves_getSocket_bind fun w hw => Preserves.ite _
    (fun _ => preserves_throw ⟨by simp, by simp, by simp⟩)
    (fun _ => serves_writeLoop hd henv _) w hw

theorem serves_onWriteEvent (hd : FrameDelegate Admitted d) (henv : env.Undisturbed) :
    Serves a (onWriteEvent env d) := by
  refine (serves_modifySocket (fun s => ?_) fun s => ?_).bind fun _ =>
    preserves_getSocket_bind fun w hw => ?_
  · exact ⟨rfl, rfl, id, rfl⟩
  · exact ⟨rfl, rfl, rfl⟩
  refine Preserves.ite _ (fun _ => (serves_modifySocket (fun s => ?_) fun s => ?_).bind fun _ =>
    (serves_writeReal hd henv).bind fun _ => preserves_getSocket_bind fun w hw => ?_)
    (fun _ => serves_modifySocket (beside_writeUnsetEvent _) (calm_writeUnsetEvent _)) w hw
  · exact ⟨rfl, rfl, id, rfl⟩
  · exact ⟨rfl, rfl, rfl⟩
  · exact Preserves.when _ (fun _ => serves_modifySocket (beside_writeUnsetEvent _)
      (calm_writeUnsetEvent _)) w hw

/-- A data frame is queued behind the last one. -/
theorem Open.steady_queued (h : Open a w) (hi : Holds w q) (ho : w.owner f = .user)
    (ht : (w.heap f).type ≠ .endOfStream) : Steady a w (queued w f) := by
  constructor
  case toOpen =>
    refine ⟨⟨h.shutdown, ?_, fun eos hm => ?_⟩, h.capacity, fun ha g hg => ?_, fun ha g hm => ?_⟩
    · simp [queued, ht, h.writeOpen]
    · exact h.readEnd eos (by simpa [queued] using hm)
    · by_cases e : g = f
      · subst e
        exact ht
      · exact h.typed ha g (by simpa [queued, e] using hg)
    · exact h.offers ha g (by simpa [queued] using hm)
  case toUnread =>
    refine ⟨rfl, fun g hg => ?_, by simp [queued, datagrams], by simp [queued, given],
      by simp [queued, handed]⟩
    have e : g ≠ f := by
      rintro rfl
      simp [ho] at hg
    exact ⟨by simpa [queued, e] using hg, hi.heap_queued h.writeOpen (by simp [hg]) e⟩

theorem write_serves (hd : FrameDelegate Admitted d) (henv : env.Undisturbed) (h : Serving a w)
    (ho : w.owner f = .user) (ht : (w.heap f).type ≠ .endOfStream) :
    wp Admitted (write env d f) (fun _ w' => Serving a w' ∧ Unread w w') w := by
  obtain ⟨⟨q, hi⟩, h⟩ := h
  have h₁ := h.steady_queued hi ho ht
  have hs₁ : Serving a (queued w f) := ⟨⟨_, hi.enqueue h.writeOpen ho⟩, h₁.toOpen⟩
  have hthen : ∀ {m : DgramM π Unit}, Serves a m →
      wp Admitted (m >>= fun _ => pure true) (fun (_ : Bool) w' => Serving a w' ∧ Unread w w')
        (queued w f) := by
    intro m hm
    rw [wp_bind]
    refine wp_mono (hm _ hs₁) ?_
    rintro _ w₂ ⟨hs₂, k₂⟩
    exact ⟨hs₂, trans_of Unread h₁.toUnread k₂⟩
  rw [write, wp_bind, wp_getSocket, wp_bind, wp_getFrame, if_neg (by simp [h.writeOpen]), wp_bind,
    wp_enqueueFrame, wp_ite]
  refine ⟨fun _ => hthen ?_, fun _ => hthen (serves_writeReal hd henv)⟩
  exact serves_modifySocket (beside_writeSetEvent _) (calm_writeSetEvent _)

end Functions

section ReadLoop

variable {env : Env} {d : Delegate π} {a r p : Prop} {w w' : World Dgram π} {f : FrameId}
  {waiting : List (List UInt8)}

theorem given_recv {t : List Io} {v : Vec} {size : ℕ} {bytes : List UInt8} (hb : bytes ≠ [])
    (h : Given waiting t) : Given (waiting ++ [bytes]) (t ++ [.recv v size bytes]) := by
  obtain ⟨groups, hd, hg⟩ := h
  refine ⟨groups, ?_, ?_⟩
  · rw [datagrams_append, hd, List.append_assoc]
    simp [datagrams, hb]
  · rw [given_append]
    simpa [given] using hg

theorem given_read {t : List Io} {bytes : List UInt8} {taken last : Bool} (h : Given waiting t)
    (hb : waiting.flatten <:+ bytes) : Given [] (t ++ [.read f bytes taken last]) := by
  obtain ⟨groups, hd, hg⟩ := h
  refine ⟨groups ++ [waiting], ?_, ?_⟩
  · rw [datagrams_append, hd]
    simp [datagrams]
  · rw [given_append]
    exact List.rel_append hg (.cons hb .nil)

theorem handedOver_recv {t : List Io} {v : Vec} {size : ℕ} {bytes : List UInt8} (hb : bytes ≠ [])
    (h : HandedOver waiting t) : HandedOver (waiting ++ [bytes]) (t ++ [.recv v size bytes]) := by
  obtain ⟨groups, hd, hh⟩ := h
  refine ⟨groups, ?_, ?_⟩
  · rw [datagrams_append, hd, List.append_assoc]
    simp [datagrams, hb]
  · rw [handed_append, hh]
    simp [handed]

theorem handedOver_taken {t : List Io} (h : HandedOver waiting t) :
    HandedOver [] (t ++ [.read f waiting.flatten true false]) := by
  obtain ⟨groups, hd, hh⟩ := h
  refine ⟨groups ++ [waiting], ?_, ?_⟩
  · rw [datagrams_append, hd]
    simp [datagrams]
  · rw [handed_append, hh]
    simp [handed]

theorem Given.congr {t u : List Io} (h : Given waiting t) (hd : datagrams u = datagrams t)
    (hg : given u = given t) : Given waiting u := by
  obtain ⟨groups, h, h'⟩ := h
  exact ⟨groups, hd.trans h, hg ▸ h'⟩

theorem HandedOver.congr {t u : List Io} (h : HandedOver waiting t)
    (hd : datagrams u = datagrams t) (hh : handed u = handed t) : HandedOver waiting u := by
  obtain ⟨groups, h, h'⟩ := h
  exact ⟨groups, hd.trans h, hh.trans h'⟩

/-- The datagrams that wait in a frame `x`. If `p` holds, it holds nothing else. -/
structure Stored (p : Prop) (x : Frame) (t : List Io) : Prop where
  recent : ∃ waiting, Given waiting t ∧ waiting.flatten <:+ x.contents
  all : p → ∃ waiting, HandedOver waiting t ∧ x.contents = waiting.flatten

/-- The read frame, if there is one, has room behind the datagrams that wait in it. -/
def Reading (p : Prop) (w : World Dgram π) : Prop :=
  match w.socket.readFrame with
  | none => Given [] w.trace ∧ (p → HandedOver [] w.trace)
  | some f => Stored p (w.heap f) w.trace ∧ (w.heap f).Room

theorem reading_none (hf : w.socket.readFrame = none) :
    Reading p w ↔ Given [] w.trace ∧ (p → HandedOver [] w.trace) := by
  rw [Reading, hf]

theorem reading_some (hf : w.socket.readFrame = some f) :
    Reading p w ↔ Stored p (w.heap f) w.trace ∧ (w.heap f).Room := by
  rw [Reading, hf]

theorem Reading.delivered (h : Reading p w) : Delivered w := by
  rw [Delivered]
  cases hf : w.socket.readFrame with
  | none => exact ⟨[], ((reading_none hf).mp h).1, rfl⟩
  | some f => exact ((reading_some hf).mp h).1.recent

theorem Reading.conserved (h : Reading p w) (hp : p) : Conserved w := by
  rw [Conserved]
  cases hf : w.socket.readFrame with
  | none => exact ⟨[], ((reading_none hf).mp h).2 hp, rfl⟩
  | some f => exact ((reading_some hf).mp h).1.all hp

theorem Stored.congr {t u : List Io} {x : Frame} (h : Stored p x t) (hd : datagrams u = datagrams t)
    (hg : given u = given t) (hh : handed u = handed t) : Stored p x u where
  recent := h.recent.imp fun _ hw => ⟨hw.1.congr hd hg, hw.2⟩
  all hp := (h.all hp).imp fun _ hw => ⟨hw.1.congr hd hh, hw.2⟩

/-- A datagram is stored behind the others. -/
theorem Stored.recv {t : List Io} {x y : Frame} {v : Vec} {size : ℕ} {bytes : List UInt8}
    (h : Stored p x t) (hb : bytes ≠ []) (hy : y.contents = x.contents ++ bytes) :
    Stored p y (t ++ [.recv v size bytes]) where
  recent := by
    obtain ⟨waiting, hw, hc⟩ := h.recent
    refine ⟨waiting ++ [bytes], given_recv hb hw, ?_⟩
    obtain ⟨old, hc⟩ := hc
    refine ⟨old, ?_⟩
    rw [hy, ← hc, List.flatten_append, List.flatten_singleton, List.append_assoc]
  all hp := by
    obtain ⟨waiting, hw, hc⟩ := h.all hp
    refine ⟨waiting ++ [bytes], handedOver_recv hb hw, ?_⟩
    rw [hy, hc, List.flatten_append, List.flatten_singleton]

/-- The delegate took the frame. -/
theorem Stored.taken {t : List Io} {x : Frame} (h : Stored p x t) :
    Given [] (t ++ [.read f x.contents true false]) ∧
      (p → HandedOver [] (t ++ [.read f x.contents true false])) := by
  obtain ⟨waiting, hw, hc⟩ := h.recent
  refine ⟨given_read hw hc, fun hp => ?_⟩
  obtain ⟨waiting, hw, hc⟩ := h.all hp
  rw [hc]
  exact handedOver_taken hw

/-- The delegate refused the frame, and left it as `y`. -/
theorem Stored.refused {t : List Io} {x y : Frame} (h : Stored p x t)
    (hy : p → y.contents = x.contents) : Stored p y (t ++ [.read f x.contents false false]) where
  recent := by
    obtain ⟨waiting, hw, hc⟩ := h.recent
    exact ⟨[], given_read hw hc, List.nil_suffix⟩
  all hp := by
    obtain ⟨waiting, hw, hc⟩ := h.all hp
    exact ⟨waiting, hw.congr (by simp [datagrams]) (by simp [handed]), (hy hp).trans hc⟩

/-- Beside the read loop the datagrams wait. -/
theorem Reading.unread (h : Reading p w) (hi : Inv w) (k : Unread w w') : Reading p w' := by
  obtain ⟨q, hi⟩ := hi
  cases hf : w.socket.readFrame with
  | none =>
    obtain ⟨hg, hh⟩ := (reading_none hf).mp h
    rw [reading_none (k.readFrame.trans hf)]
    exact ⟨hg.congr k.datagrams k.given, fun hp => (hh hp).congr k.datagrams k.handed⟩
  | some f =>
    obtain ⟨hx, hr⟩ := (reading_some hf).mp h
    rw [reading_some (k.readFrame.trans hf), (k.heap f ((hi.reader f).mpr hf)).2]
    exact ⟨hx.congr k.datagrams k.given k.handed, hr⟩

/-- The open socket between two steps of the read loop. -/
structure Receiving (a r p : Prop) (w : World Dgram π) : Prop where
  inv : Inv w
  isOpen : Open a w
  reading : r → Reading p w

theorem Receiving.unread (h : Receiving a r p w) (h' : Serving a w') (k : Unread w w') :
    Receiving a r p w' := ⟨h'.1, h'.2, fun hr => (h.reading hr).unread h.inv k⟩

/-- What serves may run between two steps of the read loop. -/
theorem Serves.receiving {α : Type} {m : DgramM π α} (hm : Serves a m) (h : Receiving a r p w) :
    wp Admitted m (fun _ w' => Receiving a r p w') w := by
  refine wp_mono (hm w ⟨h.inv, h.isOpen⟩) ?_
  rintro _ w' ⟨h', k⟩
  exact h.unread h' k

/-- A delegate that leaves the socket open. If `r` holds, the frames that it fetches or refuses have
room, and if `p` holds they are fresh or keep what they hold. -/
structure Receiver (a r p : Prop) (d : Delegate π) : Prop where
  frames : FrameDelegate Admitted d
  preserves : d.Preserves Admitted (Serving a) Unread
  fetch : r → ∀ g ∈ d.getReadFrame, ∀ w, Serving a w → wp Admitted g (fun frame w' =>
    ∀ f, frame = some f → (w'.heap f).Room ∧ (p → (w'.heap f).Fresh)) w
  refuse : r → ∀ g ∈ d.read, ∀ f w, Serving a w → (w.heap f).vecs ≠ [] →
    wp Admitted (g f) (fun taken w' => taken = false →
      (w'.heap f).Room ∧ (p → (w'.heap f).contents = (w.heap f).contents)) w

theorem serves_pauseNoframes : Serves a (pauseNoframes (π := π)) := by
  refine (serves_modifySocket (fun s => ?_) fun s => ?_).bind fun _ =>
    (serves_cntlReadPause true).bind fun _ => preserves_pure _
  · exact ⟨rfl, rfl, id, rfl⟩
  · exact ⟨rfl, rfl, rfl⟩

theorem fetchReadFrame_serves (hd : Receiver a r p d) (h : Serving a w) :
    wp Admitted (fetchReadFrame env d) (fun frame w' => (Serving a w' ∧ Unread w w') ∧
      ∀ f, frame = some f → w'.owner f = .user ∧
        (r → (w'.heap f).Room ∧ (p → (w'.heap f).Fresh))) w := by
  rw [fetchReadFrame]
  cases hg : d.getReadFrame with
  | some g =>
    refine wp_mono (wp_and_imp (wp_and (hd.preserves.getReadFrame g hg w h)
      (hd.frames.owns.fetch g hg w h.1)) fun hr => hd.fetch hr g hg w h) ?_
    rintro frame w' ⟨⟨h', ho⟩, hf⟩
    exact ⟨h', fun f he => ⟨ho f he, fun hr => hf hr f he⟩⟩
  | none =>
    obtain ⟨⟨q, hi⟩, h⟩ := h
    dsimp only
    rw [wp_bind]
    refine wp_mono (wp_and (poolBorrow_wp env.toContext (by simp) (by simp) hi)
      (poolBorrow_steady env.toContext h (by simp))) ?_
    rintro frame w₁ ⟨⟨⟨hi₁, _⟩, hr⟩, h₁⟩
    cases frame with
    | none => exact ⟨⟨⟨⟨q, hi₁⟩, h₁.toOpen⟩, h₁.toUnread⟩, by simp⟩
    | some f =>
      have ho := hr f rfl
      simp only [wp_bind, wp_getFrame, Frame.formatSimple_eq (h₁.capacity f), wp_liftM_ok,
        wp_setFrame, wp_pure]
      have h₂ := h₁.setFrame (f := f)
        (x := { w₁.heap f with vecs := Frame.simple, vecPosition := 0 })
        (by simp [ho]) (h₁.capacity f) (fun ha hp => h₁.typed ha f hp)
      refine ⟨⟨⟨⟨q, hi₁.setFrame (fun hp => hi₁.live f hp) (by simp [ho])⟩, h₂.toOpen⟩,
        h₂.toUnread⟩, fun g hg => ?_⟩
      obtain rfl := Option.some.inj hg
      have hfresh : Frame.Fresh { w₁.heap f with vecs := Frame.simple, vecPosition := 0 } :=
        Frame.fresh_simple (h₁.capacity f)
      exact ⟨ho, fun _ => by simpa using ⟨hfresh.toRoom, fun _ => hfresh⟩⟩

/-- The read frame is the current one, or one that is fetched now. -/
theorem takeReadFrame_receives (hd : Receiver a r p d) (h : Receiving a r p w) :
    wp Admitted (takeReadFrame env d) (fun frame w' =>
      Receiving a r p w' ∧ w'.socket.readFrame = frame) w := by
  rw [takeReadFrame, wp_bind, wp_getSocket, wp_ite]
  refine ⟨fun _ => ⟨h, rfl⟩, fun hn => ?_⟩
  have hn : w.socket.readFrame = none := not_not.mp hn
  rw [wp_bind]
  refine wp_mono (fetchReadFrame_serves hd ⟨h.inv, h.isOpen⟩) ?_
  rintro frame w₁ ⟨⟨hs₁, k₁⟩, hframe⟩
  have h₁ := h.unread hs₁ k₁
  have hn₁ : w₁.socket.readFrame = none := k₁.readFrame.trans hn
  cases frame with
  | none =>
    rw [wp_bind]
    refine wp_mono (serves_pauseNoframes w₁ hs₁) ?_
    rintro _ w₂ ⟨hs₂, k₂⟩
    exact ⟨h₁.unread hs₂ k₂, k₂.readFrame.trans hn₁⟩
  | some f =>
    obtain ⟨ho, hroom⟩ := hframe f rfl
    obtain ⟨q, hi₁⟩ := h₁.inv
    rw [wp_bind, wp_setOwner, wp_bind, wp_modifySocket, wp_pure]
    refine ⟨⟨⟨q, hi₁.attach ho hn₁⟩, ?_, fun hr => ?_⟩, rfl⟩
    · exact (h₁.isOpen.setOwner fun ha _ => h₁.isOpen.typed ha f (by simp [ho])).setSocket rfl rfl
    · obtain ⟨hg, hh⟩ := (reading_none hn₁).mp (h₁.reading hr)
      rw [reading_some (f := f) rfl]
      refine ⟨⟨⟨[], hg, List.nil_suffix⟩, fun hp => ⟨[], hh hp, ?_⟩⟩, (hroom hr).1⟩
      exact ((hroom hr).2 hp).contents

/-- Either nothing was received, or a datagram that is not empty. -/
theorem receive_receives (henv : env.Undisturbed) {v : Vec} {size : ℕ} (hsize : size ≠ 0)
    (h : Receiving a r p w) :
    wp Admitted (receive env d v size) (fun received w' =>
      (received = none → Receiving a r p w') ∧ ∀ bytes namelen, received = some (bytes, namelen) →
        bytes ≠ [] ∧ w' = w.tick.record (.recv v size bytes)) w := by
  obtain ⟨⟨q, hi⟩, ho, hr⟩ := h
  rw [receive, wp_bind, wp_getSocket, wp_bind, wp_ask]
  cases hm : env.recvmsg w.socket w.clock with
  | failed e =>
    obtain rfl := henv.received _ _ _ hm
    have h₁ : Serving a (w.tick.record (.recv v size [])) :=
      ⟨⟨q, hi.tick.record fun g => ⟨rfl, rfl⟩⟩, ho.steady.tick.toOpen.record (by simp) (by simp)⟩
    have k₁ : Unread w (w.tick.record (.recv v size [])) :=
      ⟨rfl, fun _ hg => ⟨hg, rfl⟩, by simp [datagrams], by simp [given], by simp [handed]⟩
    have hw₁ : Receiving a r p (w.tick.record (.recv v size [])) :=
      Receiving.unread ⟨⟨q, hi⟩, ho, hr⟩ h₁ k₁
    simp only [wp_bind, wp_record]
    refine wp_mono (Serves.receiving (serves_modifySocket (beside_readSetEvent _)
      (calm_readSetEvent _)) hw₁) fun _ w₂ h₂ => ⟨fun _ => h₂, by simp⟩
  | datagram bytes namelen =>
    have hne : bytes.take size ≠ [] := by
      have hb := henv.nonempty _ _ _ _ hm
      simpa [hsize] using hb
    simp only [wp_bind, wp_record, if_neg hne, wp_pure]
    refine ⟨by simp, fun bs k hbs => ?_⟩
    obtain ⟨rfl, -⟩ := Prod.mk.inj (Option.some.inj hbs)
    exact ⟨hne, rfl⟩

/-- The read frame is detached and given to the delegate, who takes or refuses it. -/
theorem uplink_receives (hd : Receiver a r p d) (hi : Inv w) (h : Open a w)
    (hf : w.socket.readFrame = some f)
    (hr : r → Stored p (w.heap f) w.trace ∧ (w.heap f).vecs ≠ []) :
    wp Admitted (uplink d f) (fun _ w' => Receiving a r p w') w := by
  obtain ⟨q, hi⟩ := hi
  have ho : w.owner f = .reader := (hi.reader f).mpr hf
  have htype : a → (w.heap f).type ≠ .endOfStream := fun ha => h.typed ha f (by simp [ho])
  let w₁ := ((w.setSocket { w.socket with readFrame := none }).setOwner f .user).record
    (.offer f (w.heap f).type)
  have hs₁ : Serving a w₁ := by
    refine ⟨⟨q, (hi.detach hf).record fun g => ⟨rfl, rfl⟩⟩, ?_⟩
    have h₀ : Open a (w.setSocket { w.socket with readFrame := none }) := h.setSocket rfl rfl
    refine (h₀.setOwner fun ha _ => htype ha).record (y := .offer f (w.heap f).type) (by simp) ?_
    exact fun ha g hg => htype ha (Io.offer.inj hg).2
  have hd₁ : datagrams w₁.trace = datagrams w.trace := by simp [w₁, datagrams]
  have hg₁ : given w₁.trace = given w.trace := by simp [w₁, given]
  have hh₁ : handed w₁.trace = handed w.trace := by simp [w₁, handed]
  rw [uplink, wp_bind, wp_modifySocket]
  cases hread : d.read with
  | none => exact ⟨by simp, by simp, by simp⟩
  | some read =>
    dsimp only
    rw [wp_bind, deliver, wp_bind, wp_getFrame, wp_bind, wp_setOwner, wp_bind, wp_record, wp_bind]
    refine wp_mono (wp_and_imp (wp_and (hd.preserves.read read hread f w₁ hs₁)
      (hd.frames.owns.refuse read hread f w₁ hs₁.1)) fun h =>
        hd.refuse h read hread f w₁ hs₁ (hr h).2) ?_
    rintro taken w₂ ⟨⟨⟨⟨⟨q, hi₂⟩, h₂⟩, k₂⟩, hown⟩, hroom⟩
    have hn₂ : w₂.socket.readFrame = none := k₂.readFrame
    have hx₂ (h : r) : Stored p (w.heap f) w₂.trace :=
      (hr h).1.congr (k₂.datagrams.trans hd₁) (k₂.given.trans hg₁) (k₂.handed.trans hh₁)
    have hi₃ : Holds (w₂.record (.read f (w.heap f).contents taken false)) q :=
      hi₂.record fun g => ⟨rfl, rfl⟩
    have h₃ : Open a (w₂.record (.read f (w.heap f).contents taken false)) :=
      h₂.record (by simp) (by simp)
    rw [wp_bind, wp_record, wp_pure, wp_ite]
    refine ⟨?_, fun ht => ?_⟩
    · rintro rfl
      refine ⟨⟨q, hi₃⟩, h₃, fun h => ?_⟩
      exact (reading_none (w := w₂.record (.read f (w.heap f).contents true false)) hn₂).mpr
        (hx₂ h).taken
    · obtain rfl : taken = false := by simpa using ht
      have hu : w₂.owner f = .user := hown rfl
      rw [wp_bind, wp_getSocket, wp_ite]
      refine ⟨fun _ => ⟨by simp, by simp, by simp⟩, fun _ => ?_⟩
      rw [wp_bind, wp_setOwner, wp_modifySocket]
      refine ⟨⟨q, hi₃.attach hu hn₂⟩, ?_, fun h => ?_⟩
      · exact (h₃.setOwner fun ha _ => h₃.typed ha f (by simp [hu])).setSocket rfl rfl
      · obtain ⟨hroom₂, hc⟩ := hroom h rfl
        rw [reading_some (f := f) rfl]
        exact ⟨(hx₂ h).refused hc, hroom₂⟩

/-- A datagram is stored behind those that wait in the frame, and the cursor goes to the next
vector. -/
theorem next_datagram {x y z : Frame} {v : Vec} {bytes : List UInt8} {addrlen : ℕ} {more : Bool}
    (h : x.Room) (hv : x.getVec = .ok (some v))
    (ha : Frame.advanceVec { x.write (v.offset + v.position) bytes with addrlen } v bytes.length =
      .ok y) (hn : y.nextVec = .ok (more, z)) :
    z.contents = x.contents ++ bytes ∧ (more = true → z.Room) ∧ z.vecs ≠ [] := by
  obtain ⟨u, rest, hu, hlt, hrest⟩ := h.cursor
  obtain rfl : u = v := Option.some.inj (Except.ok.inj ((Frame.getVec_of_drop hu).symm.trans hv))
  have hb : u.position + bytes.length ≤ u.limit := by
    by_contra hb
    simp [Frame.advanceVec, Vec.advance, not_le.mp hb] at ha
  have hcap : u.position + bytes.length ≤ u.capacity :=
    hb.trans (h.bounded u (by rw [Frame.vecs_eq hu]; simp)).2.1
  obtain rfl : { x.stored u bytes with addrlen } = y :=
    Except.ok.inj ((Frame.advanceVec_eq hb hcap).symm.trans ha)
  have hdrop : ({ x.stored u bytes with addrlen } : Frame).vecs.drop
      ({ x.stored u bytes with addrlen } : Frame).vecPosition =
        { u with position := u.position + bytes.length } :: rest := Frame.drop_stored hu
  obtain ⟨hmore, rfl⟩ := Prod.mk.inj (Except.ok.inj ((Frame.nextVec_of_drop hdrop).symm.trans hn))
  refine ⟨?_, fun hm => ?_, ?_⟩
  · exact h.contents_stored hu (fun u hu => (hrest u hu).1) hb
  · exact (h.stored_next hu hrest hb (by simpa [← hmore] using hm)).congr rfl rfl rfl
  · change (x.stored u bytes).vecs ≠ []
    rw [Frame.vecs_stored hu]
    simp

theorem readVec_receives (hd : Receiver a r p d) (henv : env.Undisturbed) (h : Receiving a r p w)
    (hf : w.socket.readFrame = some f) :
    wp Admitted (readVec env d f) (fun _ w' => Receiving a r p w') w := by
  obtain ⟨q, hi⟩ := h.inv
  have ho : w.owner f = .reader := (hi.reader f).mpr hf
  rw [readVec, wp_bind, wp_getFrame, wp_bind]
  cases hv : (w.heap f).getVec with
  | error e => exact admitted_getVec hv
  | ok v =>
    rw [wp_liftM_ok]
    cases v with
    | none => exact ⟨by simp, by simp, by simp⟩
    | some v =>
      dsimp only
      rw [wp_ite]
      refine ⟨fun _ => ⟨by simp, by simp, by simp⟩, fun hsize => ?_⟩
      rw [wp_bind]
      refine wp_mono (receive_receives henv hsize h) ?_
      rintro received w₁ ⟨hnone, hsome⟩
      cases received with
      | none => exact hnone rfl
      | some received =>
        obtain ⟨bytes, addrlen⟩ := received
        obtain ⟨hb, rfl⟩ := hsome bytes addrlen rfl
        dsimp only
        rw [wp_bind]
        cases ha : Frame.advanceVec
          { (w.heap f).write (v.offset + v.position) bytes with addrlen } v bytes.length with
        | error e => exact admitted_advanceVec ha
        | ok x =>
          have hx := Frame.SameHeader.of_advanceVec ha
          rw [wp_liftM_ok, wp_bind]
          cases hn : x.nextVec with
          | error e => exact admitted_nextVec hn
          | ok s =>
            obtain ⟨more, y⟩ := s
            have hy := hx.trans (Frame.SameHeader.of_nextVec hn)
            have hcap : y.capacity = FRAME_SIZE := (Stream.capacity_nextVec hn).trans
              ((Stream.capacity_advanceVec ha).trans (h.isOpen.capacity f))
            let w₂ := (w.tick.record (.recv v (toSize (v.limit - v.position)) bytes)).setFrame f y
            have hi₂ : Inv w₂ := ⟨q, (hi.tick.record fun g => ⟨rfl, rfl⟩).setFrame
              (fun _ => hy.live (hi.live f (by simp [ho]))) (by simp [ho])⟩
            have h₂ : Open a w₂ := (h.isOpen.steady.tick.toOpen.record (by simp) (by simp)).setFrame
              hcap fun hp ha => by
                rw [hy.type]
                exact h.isOpen.typed hp f (by simp [ho])
            have hr₂ (hr : r) : Stored p (w₂.heap f) w₂.trace ∧ (more = true → (w₂.heap f).Room) ∧
                (w₂.heap f).vecs ≠ [] := by
              obtain ⟨hstored, hroom⟩ := (reading_some hf).mp (h.reading hr)
              obtain ⟨hc, hmore, hne⟩ := next_datagram hroom hv ha hn
              have hself : w₂.heap f = y := by simp [w₂]
              rw [hself]
              exact ⟨hstored.recv hb hc, hmore, hne⟩
            rw [wp_liftM_ok, wp_bind, wp_setFrame, wp_ite]
            refine ⟨fun hm => ⟨hi₂, h₂, fun hr => ?_⟩, fun _ => ?_⟩
            · exact (reading_some (w := w₂) hf).mpr ⟨(hr₂ hr).1, (hr₂ hr).2.1 hm⟩
            · rw [wp_bind]
              exact wp_mono (uplink_receives hd hi₂ h₂ hf fun hr => ⟨(hr₂ hr).1, (hr₂ hr).2.2⟩)
                fun _ _ h' => h'

theorem readLoop_receives (hd : Receiver a r p d) (henv : env.Undisturbed) (n : ℕ) :
    ∀ {w : World Dgram π}, Receiving a r p w →
      wp Admitted (readLoop env d n) (fun _ w' => Receiving a r p w') w := by
  induction n with
  | zero =>
    exact fun h => Serves.receiving
      (serves_modifySocket (beside_readSetEvent _) (calm_readSetEvent _)) h
  | succ n ih =>
    intro w h
    rw [readLoop, wp_bind]
    refine wp_mono (takeReadFrame_receives hd h) ?_
    rintro r w₁ ⟨h₁, hr⟩
    cases r with
    | none => exact h₁
    | some f =>
      dsimp only
      rw [wp_bind]
      refine wp_mono (readVec_receives hd henv h₁ hr) fun more w₂ h₂ => ?_
      rw [wp_ite]
      exact ⟨fun _ => ih h₂, fun _ => h₂⟩

end ReadLoop

section Runs

/-- The frames that `get_read_frame` answers are as `ok` says. -/
def Script.Fetches (ok : Frame → Prop) (script : Script) : Prop :=
  ∀ g ∈ script.getReadFrame, ∀ n cs f vecs vecPosition, g n = (cs, some (f, vecs, vecPosition)) →
    ∀ x : Frame, x.capacity = FRAME_SIZE → ok { x with vecs, vecPosition }

/-- The layouts of the frames that `read` refuses are as `ok` says. -/
def Script.Refuses (ok : Frame → List Vec → ℕ → Prop) (script : Script) : Prop :=
  ∀ read ∈ script.read, ∀ f x n cs vecs vecPosition, read f x n = (cs, some (vecs, vecPosition)) →
    x.vecs ≠ [] → ok x vecs vecPosition

/-- A refused frame has room in its new layout. -/
abbrev Frame.Reusable (x : Frame) (vecs : List Vec) (vecPosition : ℕ) : Prop :=
  Frame.Room { x with vecs, vecPosition }

variable (env : Env) {d : Delegate π} {a r p : Prop} {w : World Dgram π}
  (allow : World Dgram π → Event → Prop) [∀ w e, Decidable (allow w e)]

/-- A call that does not ask for a shutdown leaves the socket open. -/
theorem serves_call (hd : FrameDelegate Admitted d) (henv : env.Undisturbed)
    (hallow : ∀ w e, allow w e → ¬e.Closes w)
    (ha : a → ∀ w e, allow w e → ¬e.MakesEndOfStream) (c : Call) :
    Serves a (c.exec env d allow) := by
  refine preserves_get_bind fun w hw => ?_
  rw [wp_when]
  refine ⟨?_, fun _ => ⟨hw, refl_of Unread w⟩⟩
  rintro ⟨hperm, hc⟩
  have hclose := hallow _ _ hc
  have hmakes : a → ¬(Event.call c).MakesEndOfStream := fun h => ha h _ _ hc
  cases c with
  | write f =>
    rw [Call.perform, wp_bind]
    exact wp_mono (write_serves hd henv hw hperm hclose) fun _ _ h' => h'
  | cntl codes =>
    refine ((cntlCodes_preserves fun c hm => ?_).bind fun _ => preserves_pure _) w hw
    refine serves_cntlCode fun he => hclose ?_
    simpa [Event.Closes, he] using (List.mem_filter.mp hm).2
  | bind => exact (serves_dgramBind.bind fun _ => preserves_pure _) w hw
  | connect => exact (serves_dgramConnect.bind fun _ => preserves_pure _) w hw
  | borrow type =>
    refine ((Serves.of_holding (Holding.of_keeping fun _ => keeping_poolBorrow env.toContext hperm
      (by simp)) fun w hw => ?_).bind fun _ => preserves_pure _) w hw
    exact poolBorrow_steady env.toContext hw.2 hmakes
  | frameReturn f =>
    have hperm : w.owner f = .user := hperm
    obtain ⟨⟨q, hi⟩, h⟩ := hw
    have hl : Pool.Live (w.heap f) := hi.live f (by simp [hperm])
    refine wp_mono (wp_and (frameReturn_wp env.toContext (lets_of_user ⟨q, hi⟩ hperm))
      (frameReturn_steady h.steady hl (by simp [hperm]))) ?_
    rintro _ w' ⟨⟨hi', _⟩, h'⟩
    exact ⟨⟨hi', h'.toOpen⟩, h'.toUnread⟩
  | fill f type vecs vecPosition data msgControl =>
    have hperm : w.owner f = .user ∧ type ≠ .free := hperm
    obtain ⟨⟨q, hi⟩, h⟩ := hw
    have h' := h.steady.setFrame (f := f)
      (x := { w.heap f with type, vecs, vecPosition, data, msgControl }) (by simp [hperm.1])
      (h.capacity f) fun hp _ => hmakes hp
    refine ⟨⟨⟨q, hi.setFrame (fun ho => ?_) (by simp [hperm.1])⟩, h'.toOpen⟩, h'.toUnread⟩
    exact ⟨hperm.2, (hi.live f ho).2⟩

theorem Script.receiver {script : Script} {calls : List Call → DgramM π Unit}
    (hframes : FrameDelegate Admitted (script.delegate calls))
    (hr : r → script.Fetches Frame.Room ∧ script.Refuses Frame.Reusable)
    (hp : p → script.Fetches Frame.Fresh ∧ script.Refuses Frame.RoomAdded)
    (hcalls : ∀ cs, Serves a (calls cs)) : Receiver a r p (script.delegate calls) where
  frames := hframes
  preserves := by
    refine Script.delegate_preserves (fun w hw => ?_) ?_ hcalls
    · exact serves_ask (fun _ => ()) w hw
    · rintro w f data vecs vecPosition ⟨⟨q, hi⟩, h⟩ ho
      have h' := h.steady.setFrame (f := f) (x := { w.heap f with data, vecs, vecPosition })
        (by simp [ho]) (h.capacity f) fun hp hne => h.typed hp f hne
      exact ⟨⟨⟨q, hi.setFrame (fun hp => hi.live f hp) (by simp [ho])⟩, h'.toOpen⟩, h'.toUnread⟩
  fetch hr' g hg w hw := by
    obtain ⟨g, hgs, rfl⟩ := Option.mem_map.mp hg
    rw [wp_bind, wp_ask]
    rcases hask : g w.clock with ⟨cs, frame⟩
    dsimp only
    rw [wp_bind]
    refine wp_mono (hcalls cs _ (serves_ask (fun _ => ()) w hw).1) ?_
    rintro _ w₁ ⟨⟨_, h₁⟩, _⟩
    rw [wp_bind, wp_get]
    cases frame with
    | none => simp
    | some layout =>
      obtain ⟨f, vecs, vecPosition⟩ := layout
      dsimp only
      rw [wp_ite]
      refine ⟨fun ho => ?_, fun _ => by simp⟩
      rw [wp_bind, wp_setFrame, wp_pure]
      intro g' hg'
      obtain rfl := Option.some.inj hg'
      rw [World.setFrame_heap, Function.update_self]
      exact ⟨(hr hr').1 g hgs _ cs f vecs vecPosition hask _ (h₁.capacity f),
        fun hp' => (hp hp').1 g hgs _ cs f vecs vecPosition hask _ (h₁.capacity f)⟩
  refuse hr' g hg f w hw hne := by
    obtain ⟨g, hgs, rfl⟩ := Option.mem_map.mp hg
    change wp Admitted (getFrame f >>= _) _ w
    rw [wp_bind, wp_getFrame, wp_bind, wp_ask]
    rcases hask : g f (w.heap f) w.clock with ⟨cs, refused⟩
    dsimp only
    rw [wp_bind]
    refine wp_mono (hcalls cs _ (serves_ask (fun _ => ()) w hw).1) ?_
    rintro _ w₁ ⟨⟨_, h₁⟩, _⟩
    rw [wp_bind, wp_get]
    cases refused with
    | none => simp
    | some layout =>
      obtain ⟨vecs, vecPosition⟩ := layout
      dsimp only
      rw [wp_ite]
      refine ⟨fun ho => ?_, fun _ => by simp⟩
      rw [wp_bind, wp_setFrame, wp_pure]
      intro _
      have hroom := (hr hr').2 g hgs f _ _ cs vecs vecPosition hask hne
      have hcap : (w₁.heap f).capacity = (w.heap f).capacity := by rw [h₁.capacity, hw.2.capacity]
      rw [World.setFrame_heap, Function.update_self]
      refine ⟨Frame.Room.congr hroom rfl rfl hcap, fun hp' => ?_⟩
      exact ((hp hp').2 g hgs f _ _ cs vecs vecPosition hask hne).contents

theorem scripted_receiver {script : Script} (henv : env.Undisturbed)
    (hallow : ∀ w e, allow w e → ¬e.Closes w)
    (ha : a → ∀ w e, allow w e → ¬e.MakesEndOfStream)
    (hr : r → script.Fetches Frame.Room ∧ script.Refuses Frame.Reusable)
    (hp : p → script.Fetches Frame.Fresh ∧ script.Refuses Frame.RoomAdded) (n : ℕ) :
    Receiver a r p (scripted (π := π) env allow script n) := by
  refine Script.receiver (scripted_frameDelegate env allow script n) hr hp fun cs => ?_
  cases n with
  | zero => exact preserves_pure _
  | succ n =>
    exact preserves_forM fun c _ =>
      serves_call env allow (scripted_frameDelegate env allow script n) henv hallow ha c

theorem event_receives (hd : Receiver a r p d) (henv : env.Undisturbed)
    (hallow : ∀ w e, allow w e → ¬e.Closes w)
    (ha : a → ∀ w e, allow w e → ¬e.MakesEndOfStream) (e : Event) (h : Receiving a r p w) :
    wp Admitted (e.exec env d allow) (fun _ w' => Receiving a r p w') w := by
  cases e with
  | call c => exact Serves.receiving (serves_call env allow hd.frames henv hallow ha c) h
  | read =>
    rw [Event.exec, wp_bind, wp_get, wp_when]
    refine ⟨fun _ => ?_, fun _ => h⟩
    rw [onRead, wp_bind, wp_getSocket, wp_ite]
    refine ⟨fun _ => ?_, fun _ => ?_⟩
    · refine Serves.receiving (serves_modifySocket (fun s => ?_) fun s => ?_) h
      · exact ⟨rfl, rfl, id, rfl⟩
      · exact ⟨rfl, rfl, rfl⟩
    · rw [wp_when]
      exact ⟨fun _ => readLoop_receives hd henv _ h, fun _ => h⟩
  | write =>
    rw [Event.exec, wp_bind, wp_get, wp_when]
    refine ⟨fun _ => ?_, fun _ => h⟩
    rw [onWrite, wp_bind, wp_getSocket, wp_when]
    exact ⟨fun _ => Serves.receiving (serves_onWriteEvent hd.frames henv) h, fun _ => h⟩
  | error =>
    rw [Event.exec, wp_bind, wp_get, wp_when]
    exact ⟨fun hc => absurd trivial (hallow _ _ hc.2), fun _ => h⟩

theorem receiving_init (proto : π) (data : FrameId → ℕ → UInt8) :
    Receiving a r p (World.init init proto data) where
  inv := ⟨[], holds_init proto data⟩
  isOpen := by
    refine ⟨⟨rfl, rfl, ?_⟩, fun _ => rfl, fun _ f hf => absurd rfl hf, ?_⟩ <;> simp [World.init]
  reading _ := ⟨⟨[], rfl, .nil⟩, fun _ => ⟨[], rfl, rfl⟩⟩

/-- In every run in which nobody asks for a shutdown and the system has no errors and no empty
datagrams, the socket stays open. No end-of-stream frame is offered if users make none. Every
datagram is given to the delegate once and in order, if the frames to read into have room for it,
and the frames that the delegate takes hold nothing else, if it starts with fresh frames. -/
theorem run_served (script : Script) (henv : env.Undisturbed)
    (hallow : ∀ w e, allow w e → ¬e.Closes w) (n : ℕ) (proto : π) (data : FrameId → ℕ → UInt8)
    (events : List Event) :
    wp Admitted (run env (scripted env allow script n) allow events) (fun _ w =>
      Served w ∧
        ((∀ w e, allow w e → ¬e.MakesEndOfStream) → ∀ f, .offer f .endOfStream ∉ w.trace) ∧
        (script.Fetches Frame.Room → script.Refuses Frame.Reusable → Delivered w) ∧
        (script.Fetches Frame.Fresh → script.Refuses Frame.RoomAdded → Conserved w))
      (World.init init proto data) := by
  let a : Prop := ∀ w e, allow w e → ¬e.MakesEndOfStream
  let p : Prop := script.Fetches Frame.Fresh ∧ script.Refuses Frame.RoomAdded
  let r : Prop := script.Fetches Frame.Room ∧ script.Refuses Frame.Reusable
  have hpr : p → r := by
    rintro ⟨hf, hr⟩
    refine ⟨fun g hg n cs f vecs vecPosition he x hx => ?_,
      fun read hread f x n cs vecs vecPosition he hx => ?_⟩
    · exact (hf g hg n cs f vecs vecPosition he x hx).toRoom
    · exact (hr read hread f x n cs vecs vecPosition he hx).room
  have hd : Receiver a r p (scripted (π := π) env allow script n) :=
    scripted_receiver env allow henv hallow id id id n
  refine wp_mono (wp_forM (fun e _ w hw => event_receives env allow hd henv hallow id e hw)
    (receiving_init proto data)) ?_
  rintro _ w h
  refine ⟨h.isOpen.toServed, h.isOpen.offers, fun hf hr => ?_, fun hf hr => ?_⟩
  · exact (h.reading ⟨hf, hr⟩).delivered
  · exact (h.reading (hpr ⟨hf, hr⟩)).conserved ⟨hf, hr⟩

end Runs

section Examples

-- the runs below a closed precondition are evaluated by the kernel alone
attribute [local irreducible] wp

/-- A system that receives the same datagram again and again, and a pool with enough frames. -/
def receivingEnv (bytes : List UInt8) : Env :=
  { idleEnv with
    framePool := fun n => some ⟨0, n⟩
    recvmsg := fun _ _ => .datagram bytes 0
    sockEstMaxReadLoops := 2 }

theorem run_served_two : wp Admitted
    (run (π := Unit) (receivingEnv [7]) (scripted (receivingEnv [7]) Unasked idleScript 1) Unasked
      [.call .bind, .read]) (fun _ w =>
      Served w ∧
        ((∀ (w : World Dgram Unit) e, Unasked w e → ¬e.MakesEndOfStream) →
          ∀ f, .offer f .endOfStream ∉ w.trace) ∧
        (idleScript.Fetches Frame.Room → idleScript.Refuses Frame.Reusable → Delivered w) ∧
        (idleScript.Fetches Frame.Fresh → idleScript.Refuses Frame.RoomAdded → Conserved w))
      (World.init init () fun _ _ => 0) := by
  refine run_served (receivingEnv [7]) Unasked idleScript ⟨?_, ?_, ?_⟩ (fun _ _ h => h) 1 () _ _
  · rintro s n e ⟨⟩
  · rintro s n bytes namelen ⟨⟩
    simp
  · rintro s x n e ⟨⟩
    exact Or.inl (Or.inl rfl)

/-- An empty datagram shuts a bound socket down. -/
theorem not_run_served_all : ¬∀ (env : Env) (script : Script),
    (∀ s n e, env.recvmsg s n = .failed e → e = .EAGAIN) →
    (∀ s x n e, env.sendmsg s x n = .failed e → e.Retryable ∨ s.connect = false) →
    ∀ (n : ℕ) (data : FrameId → ℕ → UInt8) (events : List Event),
      wp Admitted (run (π := Unit) env (scripted env Unasked script n) Unasked events)
        (fun _ w => Served w) (World.init init () data) := by
  intro h
  have h := h (receivingEnv []) idleScript (by rintro s n e ⟨⟩)
    (by rintro s x n e ⟨⟩; exact Or.inl (Or.inl rfl)) 1 (fun _ _ => 0) [.call .bind, .read]
  obtain ⟨_, w, hw, hs⟩ := wp_observe h (g := fun r => r.2.socket.shutdown) (b := true)
    (by decide +kernel)
  have hs : w.socket.shutdown = true := hs
  simp [hw.shutdown] at hs

end Examples

end Dgram

end FrameTransporter
