import FrameTransporter.Sock.Stream.ReadSide
import FrameTransporter.Sock.Stream.WriteSide

/-! # Feeding a delegate

A delegate sees a frame when its last vector is filled, and a partly filled frame
when reading ends. What is known of the protocol, of the bytes that came in and of
the read frame holds in every run, if storing bytes and each read of the delegate
keep it.
-/

namespace FrameTransporter

open Hoare

/-- The frame after `bytes` filled the vector under the cursor. -/
def Frame.filledUp (x : Frame) (v : Vec) (bytes : List UInt8) : Frame :=
  { x.stored v bytes with vecPosition := x.vecPosition + 1 }

namespace Stream

open ReadEvent WriteEvent SslError

variable {π : Type}

/-- What came in: the bytes that were received, with a mark wherever reading ended. -/
def inputs (t : List Io) : List (Option UInt8) := t.flatMap fun
  | .recv _ _ bytes => bytes.map some
  | .readEnd _ => [none]
  | _ => []

/-- Every frame has the size of a pool frame. -/
def Sizes (w : World Stream π) : Prop := ∀ f, (w.heap f).capacity = FRAME_SIZE

/-- Nothing comes in, the read frame is not exchanged, and reading is not started. -/
structure Apart (w w' : World Stream π) : Prop where
  readFrame : w'.socket.readFrame = w.socket.readFrame
  readPartial : w'.socket.readPartial = w.socket.readPartial
  inputs : inputs w'.trace = inputs w.trace
  wantRead : READ_WANT_READ ∈ w'.socket.readEvents → READ_WANT_READ ∈ w.socket.readEvents

/-- Nor does the protocol change, and under `b` no frame does. -/
structure Still (b : Prop) (w w' : World Stream π) : Prop extends Apart w w' where
  proto : w'.proto = w.proto
  heap : b → w'.heap = w.heap

/-- What is known of the protocol, of what came in and of the read frame (`J`), and of the protocol
while reading goes on (`G`). -/
structure Feeds (G : π → Prop) (J : π → List (Option UInt8) → Option Frame → Prop)
    (w : World Stream π) : Prop where
  sizes : Sizes w
  whole : w.socket.readPartial = false
  going : READ_WANT_READ ∈ w.socket.readEvents → G w.proto
  known : J w.proto (inputs w.trace) (w.socket.readFrame.map w.heap)

/-- A delegate that keeps what is known. -/
structure Feeder (G : π → Prop) (J : π → List (Option UInt8) → Option Frame → Prop)
    (d : Delegate π) : Prop where
  onError : Preserves (fun _ => True) Sizes (Still True) d.error
  onReturn : d.frameReturn = none
  fetch : ∃ g, d.getReadFrame = some g ∧ ∀ w, Sizes w → G w.proto →
    J w.proto (inputs w.trace) none →
      wp (fun _ => True) g (fun r w' => Sizes w' ∧ Still False w w' ∧
      J w.proto (inputs w.trace) (r.map w'.heap)) w
  store : ∀ {p ins x v bytes}, G p → J p ins (some x) → x.getVec = .ok (some v) →
    v.position + bytes.length < v.limit → J p (ins ++ bytes.map some) (some (x.stored v bytes))
  next : ∀ {p ins x v bytes}, G p → J p ins (some x) → x.getVec = .ok (some v) →
    v.position + bytes.length = v.limit → x.vecPosition + 1 ≠ x.vecLimit →
      J p (ins ++ bytes.map some) (some (x.filledUp v bytes))
  read : ∀ w f, Sizes w → wp (fun _ => True) (d.read f) (fun _ w' => Sizes w' ∧ Apart w w' ∧
    (G w.proto → READ_WANT_READ ∈ w'.socket.readEvents → G w'.proto)) w
  filled : ∀ {x v bytes ins} w f, Sizes w → G w.proto → J w.proto ins (some x) →
    x.getVec = .ok (some v) → v.position < v.limit → v.position + bytes.length = v.limit →
    x.vecPosition + 1 = x.vecLimit → inputs w.trace = ins ++ bytes.map some →
    w.heap f = x.filledUp v bytes →
    wp (fun _ => True) (d.read f) (fun taken w' =>
      J w'.proto (inputs w'.trace) (if taken then none else some (w'.heap f))) w
  cut : ∀ w f, Sizes w → J w.proto (inputs w.trace) (some (w.heap f)) → 0 < (w.heap f).pos →
    wp (fun _ => True) (d.read f)
      (fun _ w' => ∀ ins, inputs w.trace <+: ins → none ∈ ins → J w'.proto ins none) w
  forget : ∀ {p ins o}, J p ins o → ∀ ins', ins <+: ins' → none ∈ ins' → J p ins' none
  ended : ∀ w f, Sizes w → J w.proto (inputs w.trace) none → (w.heap f).type = .endOfStream →
    none ∈ inputs w.trace →
    wp (fun _ => True) (d.read f) (fun _ w' => J w'.proto (inputs w'.trace) none) w

section Relations

variable {b b' : Prop} {w w' : World Stream π}

theorem inputs_append (t t' : List Io) : inputs (t ++ t') = inputs t ++ inputs t' :=
  List.flatMap_append

instance : IsPreorder (World Stream π) Apart where
  refl _ := ⟨rfl, rfl, rfl, id⟩
  trans _ _ _ h h' := ⟨h'.readFrame.trans h.readFrame, h'.readPartial.trans h.readPartial,
    h'.inputs.trans h.inputs, h.wantRead ∘ h'.wantRead⟩

instance : IsPreorder (World Stream π) (Still b) where
  refl w := ⟨refl_of Apart w, rfl, fun _ => rfl⟩
  trans _ _ _ h h' := ⟨trans_of Apart h.toApart h'.toApart, h'.proto.trans h.proto,
    fun hb => (h'.heap hb).trans (h.heap hb)⟩

theorem Still.weaken (h : Still b w w') (hb : b' → b) : Still b' w w' :=
  ⟨h.toApart, h.proto, h.heap ∘ hb⟩

theorem still_step {s : Stream} (hs : WriteStep w.socket s) : Still b w (w.setSocket s) :=
  ⟨⟨hs.readFrame, hs.readPartial, rfl, hs.wantRead⟩, rfl, fun _ => rfl⟩

theorem still_record {x : Io} (hx : Stream.inputs [x] = []) : Still b w (w.record x) := by
  refine ⟨⟨rfl, rfl, ?_, id⟩, rfl, fun _ => rfl⟩
  rw [World.record_trace, inputs_append, hx, List.append_nil]

theorem socketSteps_still : SocketSteps (π := π) Sizes (Still b) where
  step _ _ h hs := ⟨h, still_step hs⟩
  tick _ h := ⟨h, ⟨rfl, rfl, rfl, id⟩, rfl, fun _ => rfl⟩
  record _ x h hx := ⟨h, still_record (by cases x <;> first | rfl | exact hx.elim)⟩

theorem Sizes.setFrame {f : FrameId} {x : Frame} (h : Sizes w) (hx : x.capacity = FRAME_SIZE) :
    Sizes (w.setFrame f x) := by
  intro g
  by_cases hg : g = f
  · subst hg
    simpa using hx
  · simpa [hg] using h g

theorem sideSteps_still : SideSteps (π := π) Sizes (Still False) where
  toSocketSteps := socketSteps_still
  setFrame _ f x h hx := by
    obtain ⟨w₀, h₀, hc⟩ := hx
    exact ⟨h.setFrame (hc.trans (h₀ f)), ⟨rfl, rfl, rfl, id⟩, rfl, False.elim⟩
  setOwner _ _ _ h := ⟨h, ⟨rfl, rfl, rfl, id⟩, rfl, False.elim⟩
  enqueue _ _ _ h := ⟨h, ⟨rfl, rfl, rfl, id⟩, rfl, False.elim⟩

end Relations

section Shutdown

variable {env : Env} {d : Delegate π} {G : π → Prop}
  {J : π → List (Option UInt8) → Option Frame → Prop} {w w' : World Stream π} {f : FrameId}

theorem Feeder.writeSide (hd : Feeder G J d) : WriteSide Sizes (Still False) d where
  toSideSteps := sideSteps_still
  onError := fun w h => wp_mono (hd.onError w h) fun _ _ ⟨h', k'⟩ => ⟨h', k'.weaken False.elim⟩
  onReturn g hg := by simp [hd.onReturn] at hg

theorem Feeds.still {b : Prop} (h : Feeds G J w) (h' : Sizes w') (k : Still b w w')
    (hf : w'.socket.readFrame.map w'.heap = w.socket.readFrame.map w.heap) : Feeds G J w' where
  sizes := h'
  whole := k.readPartial.trans h.whole
  going hr := by
    rw [k.proto]
    exact h.going (k.wantRead hr)
  known := by
    rw [k.proto, k.inputs, hf]
    exact h.known

theorem Still.map_heap (k : Still True w w') :
    w'.socket.readFrame.map w'.heap = w.socket.readFrame.map w.heap := by
  rw [k.readFrame, k.heap trivial]

/-- Reading is being shut, and the read frame is not filled any more. -/
structure Shutting (J : π → List (Option UInt8) → Option Frame → Prop)
    (ins : List (Option UInt8)) (w : World Stream π) : Prop where
  sizes : Sizes w
  whole : w.socket.readPartial = false
  stopped : READ_WANT_READ ∉ w.socket.readEvents
  inputs : Stream.inputs w.trace = ins
  known : ∀ ins', ins <+: ins' → none ∈ ins' → J w.proto ins' none

theorem Shutting.still {b : Prop} {ins : List (Option UInt8)} (h : Shutting J ins w) (h' : Sizes w')
    (k : Still b w w') : Shutting J ins w' where
  sizes := h'
  whole := k.readPartial.trans h.whole
  stopped := mt k.wantRead h.stopped
  inputs := k.inputs.trans h.inputs
  known := by
    rw [k.proto]
    exact h.known

/-- Once the end of reading is marked, everything is known again. -/
theorem Shutting.feeds {ins : List (Option UInt8)} (h : Shutting J ins w) (hm : none ∈ ins)
    (hf : w.socket.readFrame = none) : Feeds G J w where
  sizes := h.sizes
  whole := h.whole
  going hr := absurd hr h.stopped
  known := by
    rw [hf, h.inputs]
    exact h.known ins (List.prefix_refl ins) hm

/-- The delegate is called with a detached frame. -/
theorem deliver_apart (hd : Feeder G J d) (h : Sizes w) (f : FrameId) (last : Bool) :
    wp (fun _ => True) (deliver d f last) (fun _ w' => Sizes w' ∧ Apart w w' ∧
      (G w.proto → READ_WANT_READ ∈ w'.socket.readEvents → G w'.proto)) w := by
  unfold deliver
  rw [wp_bind, wp_getFrame, wp_bind, wp_setOwner, wp_bind, wp_record, wp_bind]
  have k₁ : Apart w ((w.setOwner f .user).record (.offer f (w.heap f).type)) :=
    ⟨rfl, rfl, by rw [World.record_trace, inputs_append]; simp [inputs], id⟩
  refine wp_mono (hd.read _ f h) ?_
  rintro taken w₂ ⟨h₂, k₂, hg⟩
  refine ⟨h₂, ?_, hg⟩
  have k₃ : Apart w₂ (w₂.record (.read f (w.heap f).contents taken last)) :=
    ⟨rfl, rfl, by rw [World.record_trace, inputs_append]; simp [inputs], id⟩
  exact trans_of Apart k₁ (trans_of Apart k₂ k₃)

/-- What holds after a read of the delegate holds after the frame was delivered. -/
theorem deliver_of_read {P : Bool → π → List (Option UInt8) → Frame → Prop} (f : FrameId)
    (last : Bool) (h : ∀ w₁ : World Stream π, w₁.proto = w.proto → w₁.heap = w.heap →
      w₁.socket = w.socket → inputs w₁.trace = inputs w.trace →
      wp (fun _ => True) (d.read f) (fun taken w' => P taken w'.proto (inputs w'.trace) (w'.heap f))
        w₁) : wp (fun _ => True) (deliver d f last)
      (fun taken w' => P taken w'.proto (inputs w'.trace) (w'.heap f)) w := by
  unfold deliver
  rw [wp_bind, wp_getFrame, wp_bind, wp_setOwner, wp_bind, wp_record, wp_bind]
  have h₁ := h ((w.setOwner f .user).record (.offer f (w.heap f).type)) rfl rfl rfl
    (by rw [World.record_trace, inputs_append]; simp [inputs])
  refine wp_mono h₁ fun taken w₂ h₂ => ?_
  have hi : inputs (w₂.record (.read f (w.heap f).contents taken last)).trace =
      inputs w₂.trace := by
    rw [World.record_trace, inputs_append]
    simp [inputs]
  rw [wp_bind, wp_record, wp_pure, hi]
  exact h₂

theorem deliverOrRelease_apart (hd : Feeder G J d) (h : Sizes w) (f : FrameId) (last : Bool)
    {P : π → List (Option UInt8) → Prop}
    (hP : wp (fun _ => True) (deliver d f last) (fun _ w' => P w'.proto (inputs w'.trace)) w) :
    wp (fun _ => True) (deliverOrRelease env d f last)
      (fun _ w' => Sizes w' ∧ Apart w w' ∧ P w'.proto (inputs w'.trace)) w := by
  unfold deliverOrRelease
  rw [wp_bind]
  refine wp_mono (wp_and (deliver_apart hd h f last) hP) ?_
  rintro taken w₁ ⟨⟨h₁, k₁, _⟩, hp⟩
  cases taken with
  | true => exact ⟨h₁, k₁, hp⟩
  | false =>
    refine wp_mono (hd.writeSide.releaseFrame f 'R' w₁ h₁) ?_
    rintro _ w₂ ⟨h₂, k₂⟩
    refine ⟨h₂, trans_of Apart k₁ k₂.toApart, ?_⟩
    rw [k₂.proto, k₂.inputs]
    exact hp

/-- Behind the partial uplink only an empty read frame may be left. -/
theorem uplinkPartial_shutting (hd : Feeder G J d) (h : Sizes w)
    (hw : w.socket.readPartial = false) (hs : READ_WANT_READ ∉ w.socket.readEvents)
    (hj : J w.proto (inputs w.trace) (w.socket.readFrame.map w.heap)) :
    wp (fun _ => True) (uplinkPartial env d) (fun _ w' => Shutting J (inputs w.trace) w' ∧
      ∀ f, w'.socket.readFrame = some f → (w'.heap f).pos = 0) w := by
  unfold uplinkPartial
  rw [wp_bind, wp_getSocket]
  cases hf : w.socket.readFrame with
  | none => exact ⟨⟨h, hw, hs, rfl, hd.forget hj⟩, by simp [hf]⟩
  | some f =>
    dsimp only
    rw [wp_bind, wp_getFrame, wp_when]
    rw [hf, Option.map_some] at hj
    refine ⟨fun hpos => ?_, fun hpos => ⟨⟨h, hw, hs, rfl, hd.forget hj⟩, fun g hg => ?_⟩⟩
    · rw [wp_bind, wp_modifySocket]
      refine wp_mono (deliverOrRelease_apart hd
        (P := fun p _ => ∀ ins, inputs w.trace <+: ins → none ∈ ins → J p ins none)
        (w := w.setSocket { w.socket with readFrame := none }) h f true ?_) ?_
      · refine deliver_of_read
          (P := fun _ p _ _ => ∀ ins, inputs w.trace <+: ins → none ∈ ins → J p ins none) f true ?_
        intro w₁ hproto hheap hsocket hins
        have hins : inputs w₁.trace = inputs w.trace := hins
        rw [← hins]
        refine hd.cut w₁ f (fun g => hheap ▸ h g) ?_ (hheap ▸ hpos)
        rw [hproto, hins, hheap]
        exact hj
      · rintro _ w₁ ⟨h₁, k₁, hp⟩
        refine ⟨⟨h₁, k₁.readPartial.trans hw, mt k₁.wantRead hs, k₁.inputs, hp⟩, fun g hg => ?_⟩
        rw [k₁.readFrame] at hg
        simp at hg
    · obtain rfl := Option.some.inj (hf.symm.trans hg)
      exact Nat.eq_zero_of_not_pos hpos

theorem endOfStreamFrame_shutting {ins : List (Option UInt8)} (h : Shutting J ins w)
    (h0 : ∀ f, w.socket.readFrame = some f → (w.heap f).pos = 0) :
    wp (fun _ => True) (endOfStreamFrame env) (fun r w' => Shutting J ins w' ∧
      w'.socket.readFrame = none ∧ ∀ f, r = some f → (w'.heap f).type = .endOfStream) w := by
  unfold endOfStreamFrame
  rw [wp_bind, wp_getSocket]
  cases hf : w.socket.readFrame with
  | none =>
    have hstay := sideSteps_still.poolBorrow env.toContext .endOfStream "stream.c" 583 w h.sizes
    refine wp_mono (wp_and hstay (poolBorrow_type env.toContext .endOfStream "stream.c" 583)) ?_
    rintro r w' ⟨⟨h', k'⟩, ht⟩
    exact ⟨h.still h' k', k'.readFrame.trans hf, ht⟩
  | some f =>
    dsimp only
    rw [wp_bind, wp_getFrame, if_pos (h0 f hf), wp_bind, wp_modifySocket, wp_bind, wp_setFrame]
    refine ⟨⟨?_, h.whole, h.stopped, h.inputs, h.known⟩, rfl, fun g hg => ?_⟩
    · exact Sizes.setFrame (w := w.setSocket { w.socket with readFrame := none }) h.sizes
        (h.sizes f)
    · obtain rfl := Option.some.inj hg
      simp

/-- A read shutdown keeps what is known. -/
theorem readShutdownNow_feeds (hd : Feeder G J d) (h : Feeds G J w) :
    wp (fun _ => True) (readShutdownNow env d) (fun _ => Feeds G J) w := by
  have hstop : WriteStep w.socket (readUnsetEvent {READ_WANT_READ} w.socket) :=
    writeStep_readUnsetEvent _ _
  have hs : READ_WANT_READ ∉ (readUnsetEvent {READ_WANT_READ} w.socket).readEvents := by
    rw [readUnsetEvent_eq]
    simp
  unfold readShutdownNow cntlReadStop
  rw [wp_bind, wp_bind, wp_modifySocket, wp_pure, wp_bind, wp_modifySocket,
    World.setSocket_setSocket, World.setSocket_socket, wp_bind]
  refine wp_mono (uplinkPartial_shutting hd h.sizes (hstop.readPartial.trans h.whole) hs
    (hstop.readFrame ▸ h.known)) ?_
  rintro _ w₁ ⟨h₁, h0⟩
  rw [wp_bind]
  refine wp_mono (endOfStreamFrame_shutting h₁ h0) ?_
  rintro r w₂ ⟨h₂, hf₂, ht⟩
  have h₃ : Shutting J (inputs w.trace ++ [none]) (w₂.record (.readEnd r)) := by
    refine ⟨h₂.sizes, h₂.whole, h₂.stopped, ?_,
      fun ins hp => h₂.known ins ((List.prefix_append _ _).trans hp)⟩
    rw [World.record_trace, inputs_append, h₂.inputs]
    rfl
  rw [wp_bind, wp_record]
  cases r with
  | none =>
    have hnote : WriteStep w₂.socket { w₂.socket with readPausedNoframes := true } :=
      ⟨rfl, rfl, rfl, rfl, id, fun _ => id, id, id⟩
    unfold Stream.pauseNoframes
    rw [wp_bind, wp_modifySocket, wp_bind, wp_cntlReadPause, if_pos rfl]
    unfold paused
    have hl : ∀ s : Stream, READ_WANT_READ ∉ s.readEvents → s.readFrame = none →
        s.readPartial = false → Feeds G J ((w₂.record (.readEnd none)).setSocket s) :=
      fun s hs hf hw => Shutting.feeds
        ⟨h₃.sizes, hw, hs, h₃.inputs, h₃.known⟩ (by simp) hf
    split
    · refine hl _ ?_ ?_ ?_ <;> rw [readUnsetEvent_eq]
      · simpa using h₂.stopped
      · exact hf₂
      · exact h₂.whole
    · exact hl _ h₂.stopped hf₂ h₂.whole
  | some f =>
    refine wp_mono (deliverOrRelease_apart hd (P := fun p ins => J p ins none) h₃.sizes f false ?_)
      ?_
    · refine deliver_of_read (P := fun _ p ins _ => J p ins none) f false ?_
      intro w₁ hproto hheap hsocket hins
      have hm : none ∈ inputs (w₂.record (.readEnd (some f))).trace := by
        rw [h₃.inputs]
        simp
      refine hd.ended w₁ f (fun g => hheap ▸ h₃.sizes g) ?_ (hheap ▸ ht f rfl) (hins ▸ hm)
      rw [hproto, hins]
      exact h₃.known _ (h₃.inputs ▸ List.prefix_refl _) hm
    · rintro _ w₄ ⟨h₄, k₄, hj⟩
      refine ⟨h₄, k₄.readPartial.trans h₂.whole, fun hr => absurd (k₄.wantRead hr) h₂.stopped, ?_⟩
      rw [k₄.readFrame, show (w₂.record (.readEnd (some f))).socket.readFrame = none from hf₂]
      exact hj

/-- So does an abort. -/
theorem cntlAbort_feeds (hd : Feeder G J d) (h : Feeds G J w) :
    wp (fun _ => True) (cntlAbort env d) (fun _ => Feeds G J) w := by
  have hrest : Preserves (fun _ => True) Sizes (Still (π := π) True) (do
      modifySocket (writeUnsetEvent {WRITE_WANT_WRITE})
      let now ← ask env.evNow
      modifySocket fun s => { s with writeShutdownAt := some now, writeShutdown := true }
      FrameTransporter.record (.shutdown .SHUT_WR)
      return true) :=
    (socketSteps_still.update (writeStep_writeUnsetEvent _)).bind fun _ =>
      socketSteps_still.query.bind fun now => (socketSteps_still.update (writeStep_shut now)).bind
      fun _ => (socketSteps_still.note (x := .shutdown .SHUT_WR) trivial).bind fun _ =>
      preserves_pure _
  unfold cntlAbort
  rw [wp_bind]
  refine wp_mono (readShutdownNow_feeds hd h) fun _ w₁ h₁ => ?_
  refine wp_mono (hrest w₁ h₁.sizes) ?_
  rintro _ w₂ ⟨h₂, k₂⟩
  exact h₁.still h₂ k₂ k₂.map_heap

end Shutdown

section Reading

variable {env : Env} {d : Delegate π} {G : π → Prop}
  {J : π → List (Option UInt8) → Option Frame → Prop} {w w' : World Stream π} {f : FrameId}

/-- In the read loop nothing keeps the delegate from reading on. -/
structure Looping (G : π → Prop) (J : π → List (Option UInt8) → Option Frame → Prop)
    (w : World Stream π) : Prop extends Feeds G J w where
  goes : G w.proto

/-- A change of the socket beside the read frame. -/
theorem Looping.setSocket {s : Stream} (h : Looping G J w)
    (hf : s.readFrame = w.socket.readFrame) (hp : s.readPartial = w.socket.readPartial) :
    Looping G J (w.setSocket s) := by
  refine ⟨⟨h.sizes, hp.trans h.whole, fun _ => h.goes, ?_⟩, h.goes⟩
  rw [World.setSocket_socket, hf]
  exact h.known

theorem Looping.still (h : Looping G J w) (h' : Sizes w') (k : Still True w w') :
    Looping G J w' :=
  ⟨h.toFeeds.still h' k k.map_heap, by rw [k.proto]; exact h.goes⟩

theorem Looping.record {x : Io} (h : Looping G J w) (hx : inputs [x] = []) :
    Looping G J (w.record x) := h.still h.sizes (still_record hx)

theorem readFrame_readSetEvent (e : Finset ReadEvent) (s : Stream) :
    (readSetEvent e s).readFrame = s.readFrame ∧
      (readSetEvent e s).readPartial = s.readPartial := by
  rw [readSetEvent_eq]
  exact ⟨rfl, rfl⟩

/-- Some bytes came in, which are not in the read frame yet. -/
structure Taking (G : π → Prop) (J : π → List (Option UInt8) → Option Frame → Prop)
    (f : FrameId) (x : Frame) (bytes : List UInt8) (w : World Stream π) : Prop where
  sizes : Sizes w
  whole : w.socket.readPartial = false
  goes : G w.proto
  frame : w.socket.readFrame = some f
  known : ∃ ins, inputs w.trace = ins ++ bytes.map some ∧ J w.proto ins (some x)

theorem Looping.taking {v : Vec} {size : ℕ} {bytes : List UInt8} (h : Looping G J w)
    (hf : w.socket.readFrame = some f) :
    Taking G J f (w.heap f) bytes (w.record (.recv v size bytes)) := by
  refine ⟨h.sizes, h.whole, h.goes, hf, inputs w.trace, ?_, ?_⟩
  · rw [World.record_trace, inputs_append]
    simp [inputs]
  · have hk := h.known
    rwa [hf] at hk

theorem recvPlain_feeds (hd : Feeder G J d) (h : Looping G J w)
    (hf : w.socket.readFrame = some f) (v : Vec) {size : ℕ} :
    wp (fun _ => True) (recvPlain env d v size) (fun r w' =>
      match r with
      | none => Feeds G J w'
      | some bytes => bytes ≠ [] ∧ Taking G J f (w.heap f) bytes w') w := by
  have ht : Looping G J w.tick := h.still h.sizes ⟨⟨rfl, rfl, rfl, id⟩, rfl, fun _ => rfl⟩
  have hnil : Looping G J (w.tick.record (.recv v size [])) := ht.record rfl
  unfold recvPlain
  rw [wp_bind, wp_getSocket, wp_bind, wp_ask]
  cases env.recv w.socket w.clock with
  | failed e =>
    have hfail : wp (fun _ => True) (do
        Stream.error env d (some e) 0
        readShutdownNow env d
        return none : StreamM π (Option (List UInt8))) (fun r w' =>
          match r with
          | none => Feeds G J w'
          | some bytes => bytes ≠ [] ∧ Taking G J f (w.heap f) bytes w')
            (w.tick.record (.recv v size [])) := by
      have herr := @SocketSteps.error π env d Sizes (Still True) _ socketSteps_still hd.onError
        (some e) 0 _ hnil.sizes
      rw [wp_bind]
      refine wp_mono herr ?_
      rintro _ w₁ ⟨h₁, k₁⟩
      rw [wp_bind]
      exact wp_mono (readShutdownNow_feeds hd (hnil.toFeeds.still h₁ k₁ k₁.map_heap))
        fun _ w₂ h₂ => h₂
    cases e with
    | EAGAIN =>
      obtain ⟨hr, hp⟩ := readFrame_readSetEvent {READ_WANT_READ} w.socket
      exact (hnil.setSocket hr hp).toFeeds
    | _ => exact hfail
  | data bytes =>
    dsimp only
    rw [wp_bind, wp_record, wp_ite]
    refine ⟨fun hb => ?_, fun hb => ⟨hb, ht.taking hf⟩⟩
    rw [hb, wp_bind, wp_modifySocket, wp_bind]
    have hs := hnil.setSocket (s := { w.socket with sysErrno := none, sslError := 0 }) rfl rfl
    exact wp_mono (readShutdownNow_feeds hd hs.toFeeds) fun _ _ h' => h'

/-- `SSL_read` changes nothing that is known. -/
theorem sslReadAgain_looping (h : Looping G J w) (hf : w.socket.readFrame = some f) :
    wp (fun _ => True) (sslReadAgain env)
      (fun _ w' => Looping G J w' ∧ w'.socket.readFrame = some f ∧ w'.heap = w.heap) w := by
  have htick : ∀ w : World Stream π, Looping G J w → Looping G J w.tick :=
    fun w h => h.still h.sizes ⟨⟨rfl, rfl, rfl, id⟩, rfl, fun _ => rfl⟩
  have hwait : (awaitWrite w.socket).readFrame = w.socket.readFrame :=
    (writeStep_awaitWrite w.socket).readFrame
  unfold sslReadAgain
  rw [wp_bind, wp_getSocket, wp_bind, wp_ask]
  cases env.sslRead w.socket w.clock with
  | data b bs => exact ⟨htick w h, hf, rfl⟩
  | failed x =>
    dsimp only
    rw [wp_ite]
    refine ⟨fun _ => ?_, fun _ => ⟨htick w h, hf, rfl⟩⟩
    rw [wp_bind, wp_modifySocket, wp_bind, wp_getSocket, wp_ask]
    exact ⟨htick _ ((htick w h).setSocket hwait (writeStep_awaitWrite w.socket).readPartial),
      hwait.trans hf, rfl⟩

theorem sslReadFailed_feeds (hd : Feeder G J d) (h : Looping G J w) (x : SslFailure) :
    wp (fun _ => True) (sslReadFailed env d x) (fun _ => Feeds G J) w := by
  have hshut : ∀ w : World Stream π, Looping G J w →
      wp (fun _ => True) (readShutdownNow env d) (fun _ => Feeds G J) w :=
    fun w h => readShutdownNow_feeds hd h.toFeeds
  have herr : ∀ e l, wp (fun _ => True) (do
      Stream.error env d e l
      readShutdownNow env d) (fun _ => Feeds G J) w := by
    intro e l
    rw [wp_bind]
    refine wp_mono (socketSteps_still.error hd.onError e l w h.sizes) ?_
    rintro _ w₁ ⟨h₁, k₁⟩
    exact hshut w₁ (h.still h₁ k₁)
  unfold sslReadFailed
  cases x.error with
  | SSL_ERROR_WANT_READ =>
    obtain ⟨hr, hp⟩ := readFrame_readSetEvent {READ_WANT_READ} w.socket
    have h₁ := h.setSocket hr hp
    have hu := writeStep_writeUnsetEvent {SSL_READ_WANT_WRITE}
      (readSetEvent {READ_WANT_READ} w.socket)
    exact (h₁.setSocket hu.readFrame hu.readPartial).toFeeds
  | SSL_ERROR_WANT_WRITE =>
    have hu := writeStep_readUnsetEvent {READ_WANT_READ} w.socket
    have h₁ := h.setSocket hu.readFrame hu.readPartial
    dsimp only
    rw [wp_bind, wp_modifySocket, wp_modifySocket]
    generalize readUnsetEvent {READ_WANT_READ} w.socket = s at h₁
    refine (h₁.setSocket ?_ ?_).toFeeds <;> rw [World.setSocket_socket, writeSetEvent_eq]
  | SSL_ERROR_ZERO_RETURN =>
    dsimp only
    rw [wp_ite, wp_ite]
    refine ⟨fun _ => trivial, fun _ => ⟨fun _ => trivial, fun _ => ?_⟩⟩
    rw [wp_bind, wp_modifySocket, wp_bind, wp_record]
    have h₁ := h.setSocket (s := { w.socket with sysErrno := none, sslError := 0 }) rfl rfl
    exact hshut _ (h₁.record (x := .shutdown .SHUT_RD) rfl)
  | SSL_ERROR_SYSCALL =>
    dsimp only
    rw [wp_ite, wp_ite]
    refine ⟨fun _ => ⟨fun _ => trivial, fun _ => ?_⟩, fun _ => ?_⟩
    · rw [wp_bind, wp_modifySocket]
      exact hshut _ (h.setSocket (s := { w.socket with sysErrno := x.errno, sslError := 0 })
        rfl rfl)
    · rw [wp_bind, wp_when]
      refine ⟨fun _ => ?_, fun _ => hshut w h⟩
      have he := herr x.errno 0
      rwa [wp_bind] at he
  | SSL_ERROR_SSL =>
    dsimp only
    rw [wp_bind]
    refine wp_mono (socketSteps_still.sslProtocolError hd.onError x w h.sizes) ?_
    rintro _ w₁ ⟨h₁, k₁⟩
    exact hshut w₁ (h.still h₁ k₁)
  | unexpected => exact herr _ _

theorem receive_feeds (hd : Feeder G J d) (h : Looping G J w)
    (hf : w.socket.readFrame = some f) (v : Vec) {size : ℕ} (hs : size ≠ 0) :
    wp (fun _ => True) (receive env d v size) (fun r w' =>
      match r with
      | none => Feeds G J w'
      | some bytes => bytes ≠ [] ∧ Taking G J f (w.heap f) bytes w') w := by
  unfold receive
  rw [wp_bind, wp_getSocket, wp_ite]
  refine ⟨fun _ => recvPlain_feeds hd h hf v, fun _ => ?_⟩
  rw [wp_bind]
  refine wp_mono (sslReadAgain_looping h hf) ?_
  rintro r w₁ ⟨h₁, hf₁, hheap⟩
  cases r with
  | data b bs =>
    refine ⟨fun hb => ?_, hheap ▸ h₁.taking hf₁⟩
    rcases List.take_eq_nil_iff.mp hb with h0 | h0
    · exact hs h0
    · cases h0
  | failed x =>
    dsimp only
    rw [wp_bind, wp_record, wp_bind]
    exact wp_mono (sslReadFailed_feeds hd (h₁.record (x := .recv v size []) rfl) x) fun _ _ h' => h'

theorem pauseNoframes_feeds (h : Looping G J w) :
    wp (fun _ => True) pauseNoframes (fun _ => Feeds G J) w := by
  have h₁ := h.setSocket (s := { w.socket with readPausedNoframes := true }) rfl rfl
  unfold Stream.pauseNoframes
  rw [wp_bind, wp_modifySocket, wp_bind, wp_cntlReadPause, if_pos rfl]
  refine (h₁.setSocket ?_ ?_).toFeeds <;> unfold paused <;> split <;>
    first | rfl | rw [readUnsetEvent_eq]

/-- The loop has a read frame, or ends. -/
theorem takeReadFrame_feeds (hd : Feeder G J d) (h : Looping G J w) :
    wp (fun _ => True) (takeReadFrame env d) (fun r w' =>
      match r with
      | none => Feeds G J w'
      | some f => Looping G J w' ∧ w'.socket.readFrame = some f) w := by
  unfold takeReadFrame
  rw [wp_bind, wp_getSocket]
  cases hf : w.socket.readFrame with
  | some f => exact ⟨h, hf⟩
  | none =>
    obtain ⟨g, hg, hfetch⟩ := hd.fetch
    have hk := h.known
    rw [hf] at hk
    rw [if_neg (by simp), wp_bind]
    unfold fetchReadFrame
    rw [hg]
    refine wp_mono (hfetch w h.sizes h.goes hk) ?_
    rintro r w₁ ⟨h₁, k₁, hj⟩
    have hgo : G w₁.proto := by rw [k₁.proto]; exact h.goes
    have hfree : w₁.socket.readFrame = none := k₁.readFrame.trans hf
    cases r with
    | none =>
      have hl : Looping G J w₁ := by
        refine ⟨⟨h₁, k₁.readPartial.trans h.whole, fun _ => hgo, ?_⟩, hgo⟩
        rw [k₁.proto, k₁.inputs, hfree]
        exact hj
      dsimp only
      rw [wp_bind]
      exact wp_mono (pauseNoframes_feeds hl) fun _ _ h' => h'
    | some f =>
      have hk : J w₁.proto (inputs w₁.trace) (some (w₁.heap f)) := by
        rw [k₁.proto, k₁.inputs]
        exact hj
      have hnote : inputs (w₁.trace ++ [.obtained f]) = inputs w₁.trace := by
        simp [inputs]
      rw [← hnote] at hk
      exact ⟨⟨⟨h₁, k₁.readPartial.trans h.whole, fun _ => hgo, hk⟩, hgo⟩, rfl⟩

/-- A full frame is handed over. -/
theorem uplink_feeds (hd : Feeder G J d) (h : Sizes w) (hw : w.socket.readPartial = false)
    (hg : G w.proto) (f : FrameId)
    (hread : ∀ w₁ : World Stream π, w₁.proto = w.proto → w₁.heap = w.heap →
      inputs w₁.trace = inputs w.trace → wp (fun _ => True) (d.read f) (fun taken w' =>
        J w'.proto (inputs w'.trace) (if taken then none else some (w'.heap f))) w₁) :
    wp (fun _ => True) (uplink d f) (fun _ => Feeds G J) w := by
  unfold uplink
  rw [wp_bind, wp_modifySocket, wp_bind]
  have hp := deliver_of_read (w := w.setSocket { w.socket with readFrame := none }) (d := d)
    (P := fun taken p ins x => J p ins (if taken then none else some x)) f false
    fun w₁ hproto hheap _ hins => hread w₁ hproto hheap hins
  refine wp_mono
    (wp_and (deliver_apart hd (w := w.setSocket { w.socket with readFrame := none }) h f false)
      hp) ?_
  rintro taken w₁ ⟨⟨h₁, k₁, hgo⟩, hj⟩
  have hfree : w₁.socket.readFrame = none := k₁.readFrame
  cases taken with
  | true =>
    refine ⟨h₁, k₁.readPartial.trans hw, hgo hg, ?_⟩
    rw [hfree]
    exact hj
  | false => exact ⟨h₁, k₁.readPartial.trans hw, hgo hg, hj⟩

/-- What a vector under the cursor says about the cursor. -/
theorem lt_of_getVec {x : Frame} {v : Vec} (hv : x.getVec = .ok (some v)) :
    x.vecPosition < x.vecLimit := by
  unfold Frame.getVec at hv
  split at hv
  · cases hv
  · split at hv
    · cases hv
    · omega

theorem nextVec_stored {x : Frame} {v : Vec} {bytes : List UInt8}
    (hv : x.getVec = .ok (some v)) : (x.stored v bytes).nextVec =
      .ok (decide (x.vecPosition + 1 ≠ x.vecLimit), x.filledUp v bytes) := by
  have hlt := lt_of_getVec hv
  have hlen : (x.stored v bytes).vecLimit = x.vecLimit := by
    simp [Frame.stored, Frame.advanced, Frame.vecLimit, Frame.write]
  have hcur : (x.stored v bytes).vecPosition = x.vecPosition := rfl
  unfold Frame.nextVec
  rw [hlen, hcur, if_neg hlt.ne, if_neg (not_lt.mpr hlt.le)]
  rfl

/-- The last vector of the read frame was filled. -/
theorem lastFilled_feeds (hd : Feeder G J d) {x : Frame} {v : Vec} {bytes : List UInt8}
    {ins : List (Option UInt8)} (h : Sizes w) (hw : w.socket.readPartial = false) (hg : G w.proto)
    (hi : inputs w.trace = ins ++ bytes.map some) (hj : J w.proto ins (some x))
    (hv : x.getVec = .ok (some v)) (hpos : v.position < v.limit)
    (hb : v.position + bytes.length = v.limit) (hlast : x.vecPosition + 1 = x.vecLimit)
    (hx : w.heap f = x.filledUp v bytes) :
    wp (fun _ => True) (do
      uplink d f
      let s ← getSocket
      return decide (READ_WANT_READ ∈ s.readEvents))
      (fun more w' => Feeds G J w' ∧ (more = true → G w'.proto)) w := by
  have hread : ∀ w₁ : World Stream π, w₁.proto = w.proto → w₁.heap = w.heap →
      inputs w₁.trace = inputs w.trace → wp (fun _ => True) (d.read f) (fun taken w' =>
        J w'.proto (inputs w'.trace) (if taken then none else some (w'.heap f))) w₁ := by
    intro w₁ hproto hheap hins
    have hsizes : Sizes w₁ := fun g => by rw [hheap]; exact h g
    have hj₁ : J w₁.proto ins (some x) := by rw [hproto]; exact hj
    have hx₁ : w₁.heap f = x.filledUp v bytes := by rw [hheap]; exact hx
    exact hd.filled w₁ f hsizes (hproto ▸ hg) hj₁ hv hpos hb hlast (hins.trans hi) hx₁
  rw [wp_bind]
  refine wp_mono (uplink_feeds hd h hw hg f hread) fun _ w₁ h₁ => ?_
  rw [wp_bind, wp_getSocket]
  exact ⟨h₁, fun hm => h₁.going (of_decide_eq_true hm)⟩

/-- Bytes were stored behind the cursor of the read frame. The loop goes on while the delegate has
not stopped reading. -/
theorem vecAdvanced_feeds (hd : Feeder G J d) {x : Frame} {v : Vec} {bytes : List UInt8}
    {ins : List (Option UInt8)} (h : Sizes w) (hw : w.socket.readPartial = false) (hg : G w.proto)
    (hf : w.socket.readFrame = some f) (hi : inputs w.trace = ins ++ bytes.map some)
    (hj : J w.proto ins (some x)) (hv : x.getVec = .ok (some v)) (hpos : v.position < v.limit)
    (hb : v.position + bytes.length ≤ v.limit) (hx : w.heap f = x.stored v bytes) :
    wp (fun _ => True) (vecAdvanced d f (decide (v.limit ≤ v.position + bytes.length)))
      (fun more w' => Feeds G J w' ∧ (more = true → G w'.proto)) w := by
  unfold vecAdvanced
  rw [wp_bind, wp_getSocket, wp_ite]
  refine ⟨fun hlt => ?_, fun hge => ?_⟩
  · have hlt : v.position + bytes.length < v.limit := not_le.mp (of_decide_eq_false hlt)
    have hl : Looping G J w := by
      refine ⟨⟨h, hw, fun _ => hg, ?_⟩, hg⟩
      rw [hi, hf, Option.map_some, hx]
      exact hd.store hg hj hv hlt
    rw [wp_bind, wp_when]
    obtain ⟨hr, hp⟩ := readFrame_readSetEvent {READ_WANT_READ} w.socket
    exact ⟨fun hpart => absurd hpart (by simp [hw]),
      fun _ => ⟨(hl.setSocket hr hp).toFeeds, by simp⟩⟩
  · have heq : v.position + bytes.length = v.limit :=
      le_antisymm hb (by simpa using hge)
    have hcap : (x.filledUp v bytes).capacity = FRAME_SIZE := by
      have hc := h f
      rw [hx] at hc
      exact hc
    have hsizes : Sizes (w.setFrame f (x.filledUp v bytes)) := h.setFrame hcap
    have hself : (w.setFrame f (x.filledUp v bytes)).heap f = x.filledUp v bytes := by simp
    rw [wp_bind, wp_getFrame, wp_bind, hx, nextVec_stored hv, wp_liftM_ok, wp_bind, wp_setFrame]
    rw [wp_ite]
    refine ⟨fun hmore => ?_, fun hmore => ?_⟩
    · have hlast : x.vecPosition + 1 = x.vecLimit := by simpa using hmore
      exact lastFilled_feeds hd hsizes hw hg hi hj hv hpos heq hlast hself
    · have hnext : x.vecPosition + 1 ≠ x.vecLimit := by simpa using hmore
      have hknown : J w.proto (inputs w.trace)
          (((w.setFrame f (x.filledUp v bytes)).socket.readFrame).map
            (w.setFrame f (x.filledUp v bytes)).heap) := by
        rw [World.setFrame_socket, hf, Option.map_some, hself, hi]
        exact hd.next hg hj hv heq hnext
      rw [wp_ite]
      refine ⟨fun hpart => absurd hpart (by simp [hw]), fun _ => ?_⟩
      exact ⟨⟨hsizes, hw, fun _ => hg, hknown⟩, fun _ => hg⟩

/-- The bytes that came in are stored. -/
theorem stored_feeds (hd : Feeder G J d) {x : Frame} {v : Vec} {bytes : List UInt8}
    (hcap : x.capacity = FRAME_SIZE) (h : Taking G J f x bytes w) (hne : bytes ≠ [])
    (hv : x.getVec = .ok (some v)) :
    wp (fun _ => True) (do
      let x ← (x.write (v.offset + v.position) bytes).advanceVec v bytes.length
      setFrame f x
      vecAdvanced d f (decide (v.limit ≤ v.position + bytes.length)) : StreamM π Bool)
      (fun more w' => Feeds G J w' ∧ (more = true → G w'.proto)) w := by
  obtain ⟨ins, hi, hj⟩ := h.known
  rw [wp_bind]
  by_cases hl : v.position + bytes.length ≤ v.limit
  · by_cases hc : v.position + bytes.length ≤ v.capacity
    · have hst : (x.write (v.offset + v.position) bytes).advanceVec v bytes.length =
          .ok (x.stored v bytes) := Frame.advanceVec_eq hl hc
      have hpos : v.position < v.limit := by
        have := List.length_pos_iff.mpr hne
        omega
      rw [hst, wp_liftM_ok, wp_bind, wp_setFrame]
      exact vecAdvanced_feeds hd (h.sizes.setFrame hcap) h.whole h.goes h.frame hi hj hv hpos hl
        (by simp)
    · rw [Frame.advanceVec_error hl (not_le.mp hc)]
      trivial
  · have herr : (x.write (v.offset + v.position) bytes).advanceVec v bytes.length =
        .error (.abort .advanceWithinLimit) := by
      rw [Frame.advanceVec, Vec.advance, if_pos (not_le.mp hl)]
      rfl
    rw [herr]
    trivial

theorem readVec_feeds (hd : Feeder G J d) (h : Looping G J w) (hf : w.socket.readFrame = some f) :
    wp (fun _ => True) (readVec env d f) (fun more w' => Feeds G J w' ∧ (more = true → G w'.proto))
      w := by
  unfold readVec
  rw [wp_bind, wp_getFrame, wp_bind]
  cases hv : (w.heap f).getVec with
  | error e => trivial
  | ok v =>
    rw [wp_liftM_ok]
    cases v with
    | none => trivial
    | some v =>
      dsimp only
      rw [wp_ite]
      refine ⟨fun _ => trivial, fun hs => ?_⟩
      rw [wp_bind]
      refine wp_mono (receive_feeds hd h hf v hs) fun r w₁ h₁ => ?_
      cases r with
      | none => exact ⟨h₁, by simp⟩
      | some bytes => exact stored_feeds hd (h.sizes f) h₁.2 h₁.1 hv

theorem readLoop_feeds (hd : Feeder G J d) (n : ℕ) (h : Looping G J w) :
    wp (fun _ => True) (readLoop env d n) (fun _ => Feeds G J) w := by
  induction n generalizing w with
  | zero =>
    obtain ⟨hr, hp⟩ := readFrame_readSetEvent {READ_WANT_READ} w.socket
    exact (h.setSocket hr hp).toFeeds
  | succ n ih =>
    rw [readLoop, wp_bind]
    refine wp_mono (takeReadFrame_feeds hd h) fun r w₁ h₁ => ?_
    cases r with
    | none => exact h₁
    | some f =>
      dsimp only
      rw [wp_bind]
      refine wp_mono (readVec_feeds hd h₁.1 h₁.2) ?_
      rintro more w₂ ⟨h₂, hg⟩
      cases more with
      | false => exact h₂
      | true =>
        refine ih ⟨h₂, hg rfl⟩

/-- A read event keeps what is known, if reading may go on at its beginning. -/
theorem onReadEvent_feeds (hd : Feeder G J d) (h : Feeds G J w) (hg : G w.proto) :
    wp (fun _ => True) (onReadEvent env d) (fun _ => Feeds G J) w := by
  unfold onReadEvent
  rw [wp_bind, wp_getSocket, wp_ite]
  exact ⟨fun _ => trivial, fun _ => readLoop_feeds hd _ ⟨h, hg⟩⟩

end Reading

end Stream

end FrameTransporter
