import FrameTransporter.Sock.Dgram.Release
import FrameTransporter.Sock.Stream.Terminal

/-! # Where the frames of a plain stream are

A frame that a stream obtains is its read frame or in its write queue, until the
delegate takes it or the stream returns it. The history of a frame tells in which
of these places it is, and the invariant says that the memory agrees with it. A
frame that is between two places is in hand.
-/

namespace FrameTransporter

open Hoare Intrusive

namespace Stream.Frames

open ReadEvent WriteEvent

variable {π : Type}

/-- The places of a frame. One that the stream never had is outside. -/
inductive Place
  | outside
  | reader
  | writer
  | handed
  | returned
  deriving DecidableEq, Repr

/-- The stream has the frame. -/
def Place.Held (p : Place) : Prop := p = .reader ∨ p = .writer

instance : DecidablePred Place.Held := fun p =>
  inferInstanceAs (Decidable (p = .reader ∨ p = .writer))

/-- A frame at the place `p`, which the stream does not have, comes to the place `q`. -/
def Place.take (p q : Place) : Option Place := if p.Held then none else some q

/-- A frame at the place `p` leaves the place `q` for `r`. -/
def Place.leave (p q r : Place) : Option Place := if p = q then some r else none

/-- What an entry of the trace does to the place of a frame, if the frame can be moved that way. A
refused frame comes back from the delegate, the frame that ends reading is the read frame or a new
one, and the one that ends writing is taken before it is queued. -/
def Place.step (f : FrameId) (p : Place) : Io → Option Place
  | .obtained g => if g = f then p.take .reader else some p
  | .accepted g _ _ => if g = f then (if p = .writer then none else some .writer) else some p
  | .offer g _ => if g = f then p.leave .reader .handed else some p
  | .read g _ taken _ => if g = f ∧ taken = false then p.take .reader else some p
  | .readEnd eos => if eos = some f ∧ p ≠ .reader then p.take .reader else some p
  | .release g side =>
    if g = f then p.leave (if side = 'W' then .writer else .reader) .returned else some p
  | .frameReturn g => if g = f ∧ p.Held then none else some p
  | _ => some p

/-- The place of a frame after a trace, if it was moved properly all the time. -/
def placeOf (f : FrameId) (t : List Io) : Option Place := t.foldlM (Place.step f) .outside

/-- The listed frames are in the write queue, and `r` is the one that is read into. -/
def Placed (t : List Io) (q : List FrameId) (r : Option FrameId) : Prop :=
  ∀ f, ∃ p, placeOf f t = some p ∧ (p = .reader ↔ r = some f) ∧ (p = .writer ↔ f ∈ q)

section Places

variable {t t' : List Io} {q q' : List FrameId} {r r' : Option FrameId} {f : FrameId} {x : Io}

theorem placeOf_concat : placeOf f (t ++ [x]) = (placeOf f t).bind (Place.step f · x) := by
  simp [placeOf, List.foldlM_append]

/-- A trace in which a frame was moved properly was so before. -/
theorem placeOf_of_prefix (h : placeOf f t' ≠ none) (ht : t <+: t') : placeOf f t ≠ none := by
  obtain ⟨u, rfl⟩ := ht
  intro hn
  rw [placeOf, List.foldlM_append] at h
  exact h (by rw [show t.foldlM (Place.step f) .outside = none from hn]; rfl)

theorem Placed.concat (h : Placed t q r)
    (hx : ∀ f p, (p = .reader ↔ r = some f) → (p = .writer ↔ f ∈ q) →
      ∃ p', Place.step f p x = some p' ∧ (p' = .reader ↔ r' = some f) ∧ (p' = .writer ↔ f ∈ q')) :
    Placed (t ++ [x]) q' r' := by
  intro f
  obtain ⟨p, hp, hr, hq⟩ := h f
  obtain ⟨p', hp', hr', hq'⟩ := hx f p hr hq
  exact ⟨p', by rw [placeOf_concat, hp]; exact hp', hr', hq'⟩

/-- An entry of the trace that moves no frame. -/
def Silent (x : Io) : Prop := ∀ f p, Place.step f p x = some p

theorem Placed.silent (h : Placed t q r) (hx : Silent x) : Placed (t ++ [x]) q r :=
  h.concat fun f p hr hq => ⟨p, hx f p, hr, hq⟩

/-- A frame that the stream does not have is read into, or refused, or ends the stream. -/
theorem Placed.take (h : Placed t q none) (hf : f ∉ q)
    (hx : ∀ g p, Place.step g p x = if g = f then p.take .reader else some p) :
    Placed (t ++ [x]) q (some f) := by
  refine h.concat fun g p hr hq => ?_
  rw [hx]
  by_cases e : g = f
  · subst e
    have hheld : ¬p.Held := by
      rintro (rfl | rfl)
      · simp at hr
      · exact hf (hq.mp rfl)
    exact ⟨.reader, by simp [Place.take, hheld], by simp, by simp [hf]⟩
  · exact ⟨p, if_neg e, by simpa [Ne.symm e] using hr, hq⟩

/-- The frame that was read into is given away. -/
theorem Placed.give {z : Place} (h : Placed t q (some f)) (hp : ¬z.Held)
    (hx : ∀ g p, Place.step g p x = if g = f then p.leave .reader z else some p) :
    Placed (t ++ [x]) q none := by
  refine h.concat fun g p hr hq => ?_
  rw [hx]
  by_cases e : g = f
  · subst e
    obtain rfl : p = .reader := hr.mpr rfl
    have hg : g ∉ q := fun hm => by simpa using hq.mpr hm
    refine ⟨z, by simp [Place.leave], ?_, ?_⟩
    · simpa using fun h₁ => hp (Or.inl h₁)
    · simpa [hg] using fun h₁ => hp (Or.inr h₁)
  · exact ⟨p, if_neg e, by simpa [Ne.symm e] using hr, hq⟩

theorem Placed.accepted {type : FrameType} {bytes : List UInt8} (h : Placed t q r) (hf : f ∉ q)
    (hr : r ≠ some f) : Placed (t ++ [.accepted f type bytes]) (q ++ [f]) r := by
  refine h.concat fun g p hrg hq => ?_
  by_cases e : f = g
  · subst e
    have hp : p ≠ .writer := fun hp => hf (hq.mp hp)
    exact ⟨.writer, by simp [Place.step, hp], by simpa using hr, by simp⟩
  · exact ⟨p, by simp [Place.step, e], hrg, by simpa [Ne.symm e] using hq⟩

/-- A frame is taken and queued at once. -/
theorem Placed.obtained {type : FrameType} {bytes : List UInt8} (h : Placed t q r) (hf : f ∉ q)
    (hr : r ≠ some f) : Placed (t ++ [.obtained f] ++ [.accepted f type bytes]) (q ++ [f]) r := by
  intro g
  obtain ⟨p, hp, hrg, hq⟩ := h g
  rw [placeOf_concat, placeOf_concat, hp, Option.bind_some]
  by_cases e : f = g
  · subst e
    have hheld : ¬p.Held := by
      rintro (rfl | rfl)
      · exact hr (hrg.mp rfl)
      · exact hf (hq.mp rfl)
    exact ⟨.writer, by simp [Place.step, Place.take, hheld], by simpa using hr, by simp⟩
  · exact ⟨p, by simp [Place.step, e], hrg, by simpa [Ne.symm e] using hq⟩

/-- The front frame of the queue is returned. -/
theorem Placed.released (h : Placed t (f :: q) r) (hf : f ∉ q) :
    Placed (t ++ [.release f 'W']) q r := by
  refine h.concat fun g p hrg hq => ?_
  by_cases e : f = g
  · subst e
    obtain rfl : p = .writer := hq.mpr (by simp)
    have hr : r ≠ some f := fun hr => by simpa using hrg.mpr hr
    exact ⟨.returned, by simp [Place.step, Place.leave], by simpa using hr, by simpa using hf⟩
  · exact ⟨p, by simp [Place.step, e], hrg, by simpa [Ne.symm e] using hq⟩

/-- A frame that the stream does not have goes back to the pool. -/
theorem Placed.frameReturn (h : Placed t q r) (hf : f ∉ q) (hr : r ≠ some f) :
    Placed (t ++ [.frameReturn f]) q r := by
  refine h.concat fun g p hrg hq => ⟨p, ?_, hrg, hq⟩
  have hheld : ¬(f = g ∧ p.Held) := by
    rintro ⟨rfl, rfl | rfl⟩
    · exact hr (hrg.mp rfl)
    · exact hf (hq.mp rfl)
  exact if_neg hheld

/-- A frame that ends the stream is the one that was read into, or taken for it. -/
theorem Placed.readEnd (h : Placed t q r) (hf : f ∉ q) (hr : r = none ∨ r = some f) :
    Placed (t ++ [.readEnd (some f)]) q (some f) := by
  rcases hr with rfl | rfl
  · refine h.concat fun g p hrg hq => ?_
    by_cases e : f = g
    · subst e
      have hheld : ¬p.Held := by
        rintro (rfl | rfl)
        · simp at hrg
        · exact hf (hq.mp rfl)
      have hp : p ≠ .reader := fun hp => hheld (Or.inl hp)
      exact ⟨.reader, by simp [Place.step, Place.take, hheld, hp], by simp, by simp [hf]⟩
    · exact ⟨p, by simp [Place.step, e], by simpa [e] using hrg, hq⟩
  · refine h.concat fun g p hrg hq => ⟨p, ?_, hrg, hq⟩
    by_cases e : f = g
    · subst e
      simp [Place.step, hrg.mpr rfl]
    · simp [Place.step, e]

end Places

/-- A plain stream holds the listed frames in its write queue, and the frame `r` beside it. -/
structure Holds (w : World Stream π) (q : List FrameId) (r : Option FrameId) : Prop where
  chain : Chain w.next w.socket.writeFrames q
  last : w.socket.writeOpen = true → w.socket.writeFrameLast = Link.last q
  writer : ∀ f, w.owner f = .writer ↔ f ∈ q
  reader : ∀ f, w.owner f = .reader ↔ r = some f
  closed : ∀ f ∈ q, (w.heap f).type = .endOfStream →
    w.socket.writeOpen = false ∧ ∃ pre, q = pre ++ [f]
  live : ∀ f, w.owner f ≠ .pool → Pool.Live (w.heap f)
  ssl : w.socket.ssl = false
  placed : Placed w.trace q r

/-- The frame beside the write queue is the read frame. -/
def Inv (w : World Stream π) : Prop := ∃ q, Holds w q w.socket.readFrame

/-- The frame is on its way between two places, and the stream has no read frame. -/
def InHand (f : FrameId) (w : World Stream π) : Prop :=
  w.socket.readFrame = none ∧ ∃ q, Holds (w.setOwner f .reader) q (some f)

/-- What no call undoes: the write side stays closed and then empty, and only the read event takes
a read frame. -/
structure Later (s s' : Stream) : Prop where
  closed : s.writeOpen = false → s'.writeOpen = false
  empty : s.writeOpen = false → s.writeFrames = none → s'.writeFrames = none
  free : s.readFrame = none → s'.readFrame = none

instance : IsPreorder Stream Later where
  refl _ := ⟨id, fun _ => id, id⟩
  trans _ _ _ h h' := ⟨h'.closed ∘ h.closed, fun ho hf => h'.empty (h.closed ho) (h.empty ho hf),
    h'.free ∘ h.free⟩

/-- A change of the socket beside its frames, which does not open it again. -/
structure Beside (s s' : Stream) : Prop where
  writeFrames : s'.writeFrames = s.writeFrames
  writeFrameLast : s'.writeFrameLast = s.writeFrameLast
  writeOpen : s.writeOpen = false → s'.writeOpen = false
  readFrame : s'.readFrame = s.readFrame
  ssl : s'.ssl = s.ssl

section States

variable {w : World Stream π} {q : List FrameId} {r : Option FrameId} {f : FrameId} {x : Frame}
  {s : Stream}

theorem Beside.later {s s' : Stream} (hs : Beside s s') : Later s s' :=
  ⟨hs.writeOpen, fun _ hf => hs.writeFrames.trans hf, fun hr => hs.readFrame.trans hr⟩

theorem Holds.not_mem (h : Holds w q r) (ho : w.owner f ≠ .writer) : f ∉ q :=
  fun hm => ho ((h.writer f).mpr hm)

theorem Holds.ne (h : Holds w q r) (ho : w.owner f ≠ .reader) : r ≠ some f :=
  fun hr => ho ((h.reader f).mpr hr)

theorem Holds.tick (h : Holds w q r) : Holds w.tick q r := { h with }

theorem Holds.record {y : Io} (h : Holds w q r) (hy : Silent y) : Holds (w.record y) q r :=
  { h with placed := h.placed.silent hy }

/-- A change of the socket beside its write queue. -/
theorem Holds.setSocket (h : Holds w q r) (hf : s.writeFrames = w.socket.writeFrames)
    (hl : s.writeFrameLast = w.socket.writeFrameLast)
    (ho : w.socket.writeOpen = false → s.writeOpen = false) (hssl : s.ssl = w.socket.ssl) :
    Holds (w.setSocket s) q r where
  __ := h
  chain := hf ▸ h.chain
  last hop := hl.trans (h.last (by
    by_contra hc
    simp [ho (Bool.not_eq_true _ ▸ hc)] at hop))
  closed f hf ht := ⟨ho (h.closed f hf ht).1, (h.closed f hf ht).2⟩
  ssl := hssl.trans h.ssl

theorem Holds.beside (h : Holds w q r) (hs : Beside w.socket s) : Holds (w.setSocket s) q r :=
  h.setSocket hs.writeFrames hs.writeFrameLast hs.writeOpen hs.ssl

/-- A frame may change; a queued one keeps its header. -/
theorem Holds.setFrame (h : Holds w q r) (hx : w.owner f ≠ .pool → Pool.Live x)
    (hq : w.owner f = .writer → x.next = (w.heap f).next ∧ x.type = (w.heap f).type) :
    Holds (w.setFrame f x) q r where
  __ := h
  chain := h.chain.congr fun g hg => by
    by_cases e : g = f
    · subst e
      simpa [World.next] using (hq ((h.writer g).mpr hg)).1.symm
    · simp [World.next, e]
  closed g hg ht := by
    refine h.closed g hg ?_
    by_cases e : g = f
    · subst e
      rw [← (hq ((h.writer g).mpr hg)).2]
      simpa using ht
    · simpa [e] using ht
  live g hg := by
    by_cases e : g = f
    · subst e
      simpa using hx hg
    · simpa [e] using h.live g hg

/-- Frames go to and fro between the pool and the users. -/
theorem Holds.setOwner {o : Owner} (h : Holds w q r)
    (hf : w.owner f ≠ .writer ∧ w.owner f ≠ .reader) (ho : o ≠ .writer ∧ o ≠ .reader)
    (hl : o ≠ .pool → Pool.Live (w.heap f)) : Holds (w.setOwner f o) q r where
  __ := h
  writer g := by
    by_cases e : g = f
    · subst e
      simp [ho.1, ← h.writer g, hf.1]
    · simpa [e] using h.writer g
  reader g := by
    by_cases e : g = f
    · subst e
      have hr := h.reader g
      simp [ho.2, ← hr, hf.2]
    · simpa [e] using h.reader g
  live g hg := by
    by_cases e : g = f
    · subst e
      exact hl (by simpa using hg)
    · exact h.live g (by simpa [e] using hg)

/-- A frame beside the queue leaves the stream, or comes to it, as the entry of the trace says. -/
theorem Holds.give {y : Io} (h : Holds (w.setOwner f .reader) q (some f))
    (hy : Placed (w.trace ++ [y]) q none) : Holds ((w.setOwner f .user).record y) q none := by
  have hf : f ∉ q := h.not_mem (by simp)
  constructor
  case chain => exact h.chain
  case last => exact h.last
  case writer =>
    intro g
    by_cases e : g = f
    · subst e
      simp [hf]
    · simpa [e] using h.writer g
  case reader =>
    intro g
    by_cases e : g = f
    · subst e
      simp
    · have hg := h.reader g
      simpa [e, Ne.symm e] using hg
  case closed => exact h.closed
  case live =>
    intro g hg
    by_cases e : g = f
    · subst e
      exact h.live g (by simp)
    · exact h.live g (by simpa [e] using hg)
  case ssl => exact h.ssl
  case placed => exact hy

theorem Holds.take {y : Io} (h : Holds w q none) (hf : w.owner f = .user)
    (hy : Placed (w.trace ++ [y]) q (some f)) :
    Holds ((w.record y).setOwner f .reader) q (some f) := by
  have hq : f ∉ q := h.not_mem (by simp [hf])
  constructor
  case chain => exact h.chain
  case last => exact h.last
  case writer =>
    intro g
    by_cases e : g = f
    · subst e
      simp [hq]
    · simpa [e] using h.writer g
  case reader =>
    intro g
    by_cases e : g = f
    · subst e
      simp
    · have hg := h.reader g
      simpa [e, Ne.symm e] using hg
  case closed => exact h.closed
  case live =>
    intro g hg
    by_cases e : g = f
    · subst e
      exact h.live g (by simp [hf])
    · exact h.live g (by simpa [e] using hg)
  case ssl => exact h.ssl
  case placed => exact hy

/-- A frame of the user is returned to the pool. -/
theorem Holds.returned (ctx : Context) (h : Holds w q r) (hf : w.owner f = .user) :
    Holds (w.returned ctx f) q r := by
  have h₁ := h.tick.setOwner (f := f) (o := .pool) (by simp [hf]) (by simp) (by simp)
  have h₂ := h₁.setFrame (f := f) (x := { w.heap f with
    type := .free, next := ctx.availableFrames w.clock, lastSeenByFile := none,
    lastSeenByLine := 0 }) (by simp) (by simp)
  exact { h₂ with
    placed := h.placed.frameReturn (h.not_mem (by simp [hf])) (h.ne (by simp [hf])) }

/-- The front frame leaves the queue. The link to the end of the queue matters only while the stream
takes frames. -/
theorem Holds.dequeue (h : Holds w (f :: q) r) (last : Link FrameId) (n : ℕ)
    (hl : w.socket.writeOpen = true →
      last = if (w.heap f).next = none then .head else w.socket.writeFrameLast) :
    Holds (((w.setSocket { w.socket with
      writeQueueLength := n, writeFrames := (w.heap f).next, writeFrameLast := last }).setOwner f
        .user).record (.release f 'W')) q r := by
  obtain ⟨hfq, -⟩ := List.nodup_cons.mp h.chain.nodup
  have ho : w.owner f = .writer := (h.writer f).mpr (by simp)
  constructor
  case chain => exact (chain_cons.mp h.chain).2
  case last => exact fun hop => (hl hop).trans (Queue.mk h.chain (h.last hop)).dequeue.last_eq
  case writer =>
    intro g
    by_cases e : g = f
    · subst e
      simpa using hfq
    · simpa [e] using h.writer g
  case reader =>
    intro g
    by_cases e : g = f
    · subst e
      have hr := h.reader g
      simpa [ho] using hr
    · simpa [e] using h.reader g
  case closed =>
    intro g hg ht
    obtain ⟨hop, pre, hpre⟩ := h.closed g (List.mem_cons_of_mem _ hg) ht
    cases pre with
    | nil => exact absurd ((List.cons.inj hpre).2 ▸ hg) (by simp)
    | cons a pre => exact ⟨hop, pre, (List.cons.inj hpre).2⟩
  case live =>
    intro g hg
    by_cases e : g = f
    · subst e
      exact h.live g (by simp [ho])
    · exact h.live g (by simpa [e] using hg)
  case ssl => exact h.ssl
  case placed => exact h.placed.released hfq

/-- The end-of-stream frame is the last of the queue. -/
theorem Holds.eq_nil (h : Holds w (f :: q) r) (ht : (w.heap f).type = .endOfStream) :
    q = [] ∧ w.socket.writeOpen = false := by
  obtain ⟨ho, pre, hpre⟩ := h.closed f (by simp) ht
  refine ⟨?_, ho⟩
  cases pre with
  | nil => simpa using hpre
  | cons a pre =>
    have hm : f ∈ q := by simp [(List.cons.inj hpre).2]
    exact absurd hm (List.nodup_cons.mp h.chain.nodup).1

/-- A frame of the user is added to the queue. -/
theorem Holds.enqueue (h : Holds w q r) (hop : w.socket.writeOpen = true)
    (hf : w.owner f = .user) : Holds (queued w f) (q ++ [f]) r := by
  have hfq : f ∉ q := h.not_mem (by simp [hf])
  have hheap : ∀ g, ((queued w f).heap g).type = (w.heap g).type ∧
      ((queued w f).heap g).lastSeenByFile = (w.heap g).lastSeenByFile ∧
      ((queued w f).heap g).lastSeenByLine = (w.heap g).lastSeenByLine :=
    fun _ => ⟨rfl, rfl, rfl⟩
  constructor
  case chain => exact (Queue.enqueue ⟨h.chain, h.last hop⟩ hfq).chain
  case last => exact fun _ => by simp [queued]
  case writer =>
    intro g
    by_cases e : g = f
    · subst e
      simp [queued]
    · simpa [queued, e] using h.writer g
  case reader =>
    intro g
    by_cases e : g = f
    · subst e
      have hr := h.reader g
      simpa [queued, hf] using hr
    · simpa [queued, e] using h.reader g
  case closed =>
    intro g hg ht
    rw [(hheap g).1] at ht
    rcases List.mem_append.mp hg with hg | hg
    · have hc := (h.closed g hg ht).1
      simp [hop] at hc
    · obtain rfl := List.mem_singleton.mp hg
      exact ⟨by simp [queued, ht], q, rfl⟩
  case live =>
    intro g hg
    have hl : Pool.Live (w.heap g) := by
      by_cases e : g = f
      · subst e
        exact h.live g (by simp [hf])
      · exact h.live g (by simpa [queued, e] using hg)
    rwa [Pool.Live, (hheap g).1, (hheap g).2.1, (hheap g).2.2]
  case ssl => exact h.ssl
  case placed => exact h.placed.accepted hfq (h.ne (by simp [hf]))

/-- A frame that the stream takes itself is added to the queue. -/
theorem Holds.enqueueObtained (h : Holds w q r) (hop : w.socket.writeOpen = true)
    (hf : w.owner f = .user) : Holds (queued (w.record (.obtained f)) f) (q ++ [f]) r :=
  { h.enqueue hop hf with
    placed := h.placed.obtained (h.not_mem (by simp [hf])) (h.ne (by simp [hf])) }

theorem holds_init (o : Opening) (proto : π) (data : FrameId → ℕ → UInt8) :
    Holds (World.init (opened o) proto data) [] none := by
  cases o <;> exact ⟨by simp [World.init, opened, writeSetEvent_eq, readSetEvent_eq, Stream.init],
    fun _ => rfl, by simp [World.init], by simp [World.init], by simp, fun f hf => absurd rfl hf,
    rfl, fun f => ⟨.outside, rfl, by simp, by simp⟩⟩

end States

section Functions

variable {env : Env} {d : Delegate π} {w : World Stream π} {f : FrameId} {q : List FrameId}
  {r : Option FrameId}

open Dgram (Admitted)

/-- The stream keeps hold of its frames. No frame is returned that is not in use. -/
abbrev Holding {α : Type} (m : StreamM π α) : Prop :=
  Preserves Admitted (Inv (π := π)) (SocketStep Later) m

/-- The delegate leaves the frames of the stream alone. Frames that it hands over or refuses are its
own. -/
structure FrameDelegate (d : Delegate π) : Prop where
  preserves : d.Preserves Admitted Inv (SocketStep Later)
  fetch : ∀ g ∈ d.getReadFrame, ∀ w, Inv w →
    wp Admitted g (fun r w' => ∀ f, r = some f → w'.owner f = .user) w
  refuse : ∀ f w, Inv w →
    wp Admitted (d.read f) (fun taken w' => taken = false → w'.owner f = .user) w

/-- What holds on the frames is done later than anything before it. -/
theorem Holding.wp {α : Type} {m : StreamM π α} {s : Stream} (hm : Holding m) (h : Inv w)
    (l : Later s w.socket) : wp Admitted m (fun _ w' => Inv w' ∧ Later s w'.socket) w :=
  wp_mono (hm w h) fun _ _ h' => ⟨h'.1, trans_of Later l h'.2⟩

theorem Inv.beside {s : Stream} (h : Inv w) (hs : Beside w.socket s) : Inv (w.setSocket s) := by
  obtain ⟨q, h⟩ := h
  refine ⟨q, ?_⟩
  rw [World.setSocket_socket, hs.readFrame]
  exact h.beside hs

theorem Inv.record {y : Io} (h : Inv w) (hy : Silent y) : Inv (w.record y) :=
  h.imp fun _ hq => hq.record hy

theorem holding_ask {α : Type} (a : ℕ → α) : Holding (ask (σ := Stream) (π := π) a) :=
  fun _ h => ⟨h.imp fun _ hq => hq.tick, id, fun _ => id, id⟩

theorem holding_beside {g : Stream → Stream} (hg : ∀ s, Beside s (g s)) :
    Holding (modifySocket (π := π) g) :=
  fun w h => ⟨h.beside (hg w.socket), (hg w.socket).later⟩

theorem holding_record {y : Io} (hy : Silent y) :
    Holding (FrameTransporter.record (σ := Stream) (π := π) y) :=
  fun _ h => ⟨h.record hy, id, fun _ => id, id⟩

theorem beside_readSetEvent (e : Finset ReadEvent) (s : Stream) : Beside s (readSetEvent e s) := by
  rw [readSetEvent_eq]
  exact ⟨rfl, rfl, id, rfl, rfl⟩

theorem beside_readUnsetEvent (e : Finset ReadEvent) (s : Stream) :
    Beside s (readUnsetEvent e s) := by
  rw [readUnsetEvent_eq]
  exact ⟨rfl, rfl, id, rfl, rfl⟩

theorem beside_writeSetEvent (e : Finset WriteEvent) (s : Stream) :
    Beside s (writeSetEvent e s) := by
  rw [writeSetEvent_eq]
  exact ⟨rfl, rfl, id, rfl, rfl⟩

theorem beside_writeUnsetEvent (e : Finset WriteEvent) (s : Stream) :
    Beside s (writeUnsetEvent e s) := by
  rw [writeUnsetEvent_eq]
  exact ⟨rfl, rfl, id, rfl, rfl⟩

theorem beside_awaitWrite (s : Stream) : Beside s (awaitWrite s) := by
  obtain ⟨a, b, c, e, g⟩ := beside_writeSetEvent {WRITE_WANT_WRITE} { s with writeReady := false }
  exact ⟨a, b, c, e, g⟩

theorem holding_cntlReadPause (on : Bool) : Holding (cntlReadPause (π := π) on) := by
  refine preserves_getSocket_bind fun w hw => ?_
  cases on with
  | true =>
    refine ((holding_beside fun s => ?_).bind fun _ => (Preserves.when _ fun _ =>
      holding_beside fun s => beside_readUnsetEvent ∅ s).bind fun _ => preserves_pure _) w hw
    exact ⟨rfl, rfl, id, rfl, rfl⟩
  | false =>
    refine (Preserves.ite _ (fun _ => preserves_throw (by simp [Admitted])) fun _ =>
      (holding_beside fun s => ?_).bind fun _ => (Preserves.when _ fun _ =>
        holding_beside fun s => beside_readSetEvent ∅ s).bind fun _ => preserves_pure _) w hw
    exact ⟨rfl, rfl, id, rfl, rfl⟩

theorem holding_pauseNoframes : Holding (pauseNoframes (π := π)) := by
  refine (holding_beside fun s => ?_).bind fun _ => (holding_cntlReadPause true).bind fun _ =>
    preserves_pure _
  exact ⟨rfl, rfl, id, rfl, rfl⟩

/-- A borrowed frame is the user's. -/
theorem poolBorrow_holds (ctx : Context) {type : FrameType} {file : String} {line : ℕ}
    (ht : type ≠ .free) (hl : line ≠ 0) (h : Holds w q r) :
    wp Admitted (poolBorrow ctx type file line) (fun r' w' =>
      (Holds w' q r ∧ w'.socket = w.socket) ∧ ∀ f, r' = some f → w'.owner f = .user) w := by
  rw [poolBorrow, wp_bind, wp_ask, wp_bind, wp_get]
  cases ctx.framePool w.clock with
  | none => exact ⟨⟨h.tick, rfl⟩, by simp⟩
  | some f =>
    dsimp only
    rw [wp_ite]
    refine ⟨fun ho => ?_, fun _ => ⟨⟨h.tick, rfl⟩, by simp⟩⟩
    have ho : w.owner f = .pool := ho
    have h₁ := h.tick.setFrame (f := f) (x := Pool.resetFrame (w.heap f) type file line)
      (fun hne => absurd ho hne) (by simp [ho])
    have h₂ := h₁.setOwner (f := f) (o := .user) (by simp [ho]) (by simp)
      (fun _ => by simpa using Pool.live_resetFrame ht hl)
    refine ⟨⟨h₂, rfl⟩, fun g hg => ?_⟩
    obtain rfl := Option.some.inj hg
    simp

theorem poolBorrow_wp (ctx : Context) {type : FrameType} {file : String} {line : ℕ}
    (ht : type ≠ .free) (hl : line ≠ 0) (h : Inv w) :
    wp Admitted (poolBorrow ctx type file line) (fun r w' => (Inv w' ∧ w'.socket = w.socket) ∧
      ∀ f, r = some f → w'.owner f = .user) w := by
  obtain ⟨q, h⟩ := h
  refine wp_mono (poolBorrow_holds ctx ht hl h) ?_
  rintro r w' ⟨⟨h', hs⟩, hr⟩
  refine ⟨⟨⟨q, ?_⟩, hs⟩, hr⟩
  rwa [hs]

/-- A frame of the user goes back to the pool. -/
theorem frameReturn_wp (ctx : Context) (h : Inv w) (hf : w.owner f = .user) :
    wp Admitted (frameReturn ctx f) (fun _ w' => Inv w' ∧ Later w.socket w'.socket) w := by
  obtain ⟨q, h⟩ := h
  rw [wp_frameReturn (h.live f (by simp [hf]))]
  exact ⟨⟨q, h.returned ctx hf⟩, id, fun _ => id, id⟩

/-- A frame that has left the stream is given back, to the delegate or to the pool. -/
theorem giveBack_wp {I : World Stream π → Prop} {side : Char}
    (hd : ∀ g ∈ d.frameReturn, Preserves Admitted I (SocketStep Later) (g f side)) (h : I w)
    (hf : wp Admitted (frameReturn env.toContext f)
      (fun _ w' => I w' ∧ Later w.socket w'.socket) w) :
    wp Admitted (match d.frameReturn with
      | some g => g f side
      | none => frameReturn env.toContext f)
      (fun _ w' => I w' ∧ Later w.socket w'.socket) w := by
  cases hg : d.frameReturn with
  | none => exact hf
  | some g => exact hd g hg w h

/-- A frame in hand leaves the stream. -/
theorem InHand.give {y : Io} {z : Place} (h : InHand f w) (hp : ¬z.Held)
    (hy : ∀ g p, Place.step g p y = if g = f then p.leave .reader z else some p) :
    Inv ((w.setOwner f .user).record y) := by
  obtain ⟨hn, q, h⟩ := h
  refine ⟨q, ?_⟩
  have hr : ((w.setOwner f .user).record y).socket.readFrame = none := hn
  rw [hr]
  exact h.give (h.placed.give hp hy)

theorem releaseFrame_wp (hd : FrameDelegate d) (h : InHand f w) :
    wp Admitted (releaseFrame env d f 'R') (fun _ w' => Inv w' ∧ Later w.socket w'.socket) w := by
  have h₁ : Inv ((w.setOwner f .user).record (.release f 'R')) :=
    h.give (z := .returned) (by simp [Place.Held]) fun g p => by simp [Place.step, eq_comm]
  rw [releaseFrame, wp_bind, wp_setOwner, wp_bind, wp_record]
  exact giveBack_wp (fun g hg => hd.preserves.frameReturn g hg f 'R') h₁
    (frameReturn_wp env.toContext h₁ (by simp))

/-- Whatever the delegate answers, the frame it refuses is in hand again. -/
theorem deliver_wp (hd : FrameDelegate d) (last : Bool) (h : InHand f w) :
    wp Admitted (deliver d f last) (fun taken w' => Later w.socket w'.socket ∧
      if taken then Inv w' else w'.owner f = .user ∧ InHand f w') w := by
  have h₁ : Inv ((w.setOwner f .user).record (.offer f (w.heap f).type)) :=
    h.give (z := .handed) (by simp [Place.Held]) fun g p => by simp [Place.step, eq_comm]
  rw [deliver, wp_bind, wp_getFrame, wp_bind, wp_setOwner, wp_bind, wp_record, wp_bind]
  refine wp_mono (wp_and (hd.preserves.read f _ h₁) (hd.refuse f _ h₁)) ?_
  rintro taken w₂ ⟨⟨⟨q, h₂⟩, l₂⟩, ho⟩
  have hn : w₂.socket.readFrame = none := l₂.free h.1
  rw [wp_bind, wp_record, wp_pure]
  refine ⟨⟨l₂.closed, l₂.empty, l₂.free⟩, ?_⟩
  cases taken with
  | true => exact ⟨q, h₂.record fun g p => by simp [Place.step]⟩
  | false =>
    have ho : w₂.owner f = .user := ho rfl
    rw [hn] at h₂
    have hplaced : Placed (w₂.trace ++ [.read f (w.heap f).contents false last]) q (some f) :=
      h₂.placed.take (h₂.not_mem (by simp [ho])) fun g p => by simp [Place.step, eq_comm]
    exact ⟨ho, hn, q, h₂.take ho hplaced⟩

theorem deliverOrRelease_wp (hd : FrameDelegate d) (last : Bool) (h : InHand f w) :
    wp Admitted (deliverOrRelease env d f last)
      (fun _ w' => Inv w' ∧ Later w.socket w'.socket) w := by
  rw [deliverOrRelease, wp_bind]
  refine wp_mono (deliver_wp hd last h) ?_
  rintro taken w₁ ⟨l₁, h₁⟩
  cases taken with
  | true => exact ⟨h₁, l₁⟩
  | false =>
    refine wp_mono (releaseFrame_wp hd h₁.2) ?_
    rintro _ w₂ ⟨h₂, l₂⟩
    refine ⟨h₂, ?_⟩
    exact trans_of Later l₁ l₂

/-- The read frame is detached. -/
theorem InHand.detach (h : Inv w) (hf : w.socket.readFrame = some f) :
    InHand f (w.setSocket { w.socket with readFrame := none }) := by
  obtain ⟨q, h⟩ := h
  rw [hf] at h
  have ho : w.setOwner f .reader = w := by
    rw [← (h.reader f).mpr rfl]
    simp [World.setOwner]
  refine ⟨rfl, q, ?_⟩
  have h₁ : Holds ((w.setOwner f .reader).setSocket { w.socket with readFrame := none }) q
      (some f) :=
    Holds.setSocket (by rwa [ho]) rfl rfl id rfl
  exact h₁

/-- A frame in hand becomes the read frame. -/
theorem InHand.attach (h : InHand f w) :
    Inv ((w.setOwner f .reader).setSocket { w.socket with readFrame := some f }) := by
  obtain ⟨-, q, h⟩ := h
  exact ⟨q, h.setSocket rfl rfl id rfl⟩

end Functions

end Stream.Frames

end FrameTransporter
