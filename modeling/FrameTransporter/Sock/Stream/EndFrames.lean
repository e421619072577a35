import FrameTransporter.Mempool.Ownership
import FrameTransporter.Sock.Stream.Custody

/-! # Where end-of-stream frames come from

A stream makes an end-of-stream frame where reading ends, and one that goes right
into the write queue. If users make none, neither they nor the read side have one
before reading ends, so nothing else can be handed over as the end of the stream.
A frame is exempt from this while a handler has it in hand.
-/

namespace FrameTransporter

open Hoare Intrusive

namespace Stream

open ReadEvent WriteEvent SslError

variable {π : Type}

/-- How reading ended: each time with the end-of-stream frame that was found, if any. -/
def ends (t : List Io) : List (Option FrameId) := t.filterMap fun
  | .readEnd eos => some eos
  | _ => none

/-- The end-of-stream frames that the delegate was given. -/
def endOffers (t : List Io) : List FrameId := t.filterMap fun
  | .offer f .endOfStream => some f
  | _ => none

/-- Reading has ended. -/
def Ended (w : World Stream π) : Prop := ends w.trace ≠ []

instance (w : World Stream π) : Decidable (Ended w) := inferInstanceAs (Decidable (_ ≠ _))

/-- A user makes an end-of-stream frame. -/
def Event.MakesEndOfStream : Event → Prop
  | .call (.borrow type) | .call (.fill _ type ..) => type = .endOfStream
  | _ => False

instance : (e : Event) → Decidable e.MakesEndOfStream
  | .call (.borrow type) | .call (.fill _ type ..) => inferInstanceAs (Decidable (type = _))
  | .call (.write _) | .call (.cntl _) | .call (.enableSsl _) | .call (.setPartial _)
  | .call (.frameReturn _) | .read | .write | .error => inferInstanceAs (Decidable False)

theorem ends_append (t t' : List Io) : ends (t ++ t') = ends t ++ ends t' := List.filterMap_append

theorem mem_ends {t : List Io} {eos : Option FrameId} : eos ∈ ends t ↔ .readEnd eos ∈ t := by
  rw [ends, List.mem_filterMap]
  refine ⟨fun ⟨x, hx, he⟩ => ?_, fun h => ⟨_, h, rfl⟩⟩
  split at he
  · exact Option.some.inj he ▸ hx
  · cases he

theorem mem_endOffers {t : List Io} {f : FrameId} :
    f ∈ endOffers t ↔ .offer f .endOfStream ∈ t := by
  rw [endOffers, List.mem_filterMap]
  refine ⟨fun ⟨x, hx, he⟩ => ?_, fun h => ⟨_, h, rfl⟩⟩
  split at he
  · exact Option.some.inj he ▸ hx
  · cases he

theorem Ended.record {w : World Stream π} (h : Ended w) (y : Io) : Ended (w.record y) := by
  rw [Ended, World.record_trace, ends_append]
  exact fun hn => h (List.append_eq_nil_iff.mp hn).1

theorem ended_readEnd {w : World Stream π} (eos : Option FrameId) :
    Ended (w.record (.readEnd eos)) := by
  rw [Ended, World.record_trace, ends_append]
  exact List.append_ne_nil_of_right_ne_nil _ (by simp [ends])

namespace EndFrames

/-- The frames are in custody. Under `p`, and until reading ends, only the write side and the pool
have end-of-stream frames, apart from the exempt frame, and none is handed over. -/
structure Tracked (p : Prop) (exempt : Option FrameId) (w : World Stream π) (q : List FrameId) :
    Prop extends Custody w q where
  data : p → ¬Ended w → ∀ f, exempt ≠ some f → w.owner f = .user ∨ w.owner f = .reader →
    (w.heap f).type ≠ .endOfStream
  behind : p → ∀ pre f post, w.trace = pre ++ .offer f .endOfStream :: post → ends pre ≠ []

def Inv (p : Prop) (w : World Stream π) : Prop := ∃ q, Tracked p none w q

/-- A handler has the frame in hand. -/
def InHand (p : Prop) (f : FrameId) (w : World Stream π) : Prop :=
  ∃ q, Tracked p (some f) w q ∧ f ∉ q ∧ w.socket.readFrame ≠ some f

section States

variable {p : Prop} {e : Option FrameId} {w : World Stream π} {q : List FrameId} {f : FrameId}
  {x : Frame} {s : Stream}

namespace Tracked

theorem exempting (h : Tracked p none w q) : Tracked p e w q :=
  { h with data := fun hp hn f _ => h.data hp hn f (by simp) }

/-- Without users who make end-of-stream frames a data frame in hand is none of them. -/
theorem settle (h : Tracked p (some f) w q)
    (hf : p → ¬Ended w → w.owner f = .user ∨ w.owner f = .reader →
      (w.heap f).type ≠ .endOfStream) : Tracked p none w q where
  __ := h
  data hp hn g _ := by
    by_cases e : g = f
    · exact e ▸ hf hp hn
    · exact h.data hp hn g (by simpa using Ne.symm e)

theorem tick (h : Tracked p e w q) : Tracked p e w.tick q := { h with }

theorem record {y : Io} (h : Tracked p e w q) (hy : p → ∀ f, y = .offer f .endOfStream → Ended w) :
    Tracked p e (w.record y) q where
  __ := h.toCustody.record y
  data hp hn := h.data hp (mt (Ended.record · y) hn)
  behind hp pre f post ht := by
    rcases concat_eq_split ht with ⟨-, rfl, rfl⟩ | ⟨post', -, ht'⟩
    · exact hy hp f rfl
    · exact h.behind hp pre f post' ht'

theorem setSocket (h : Tracked p e w q) (hs : FramesKept w.socket s) :
    Tracked p e (w.setSocket s) q :=
  { h.toCustody.setSocket hs with data := h.data, behind := h.behind }

/-- A frame may change, and a queued one keeps its header. -/
theorem setFrame (h : Tracked p e w q)
    (hx : w.owner f = .writer → x.next = (w.heap f).next ∧ x.type = (w.heap f).type)
    (ht : p → ¬Ended w → e ≠ some f → w.owner f = .user ∨ w.owner f = .reader →
      x.type ≠ .endOfStream) : Tracked p e (w.setFrame f x) q where
  __ := h.toCustody.setFrame hx
  data hp hn g hg ho := by
    by_cases e : g = f
    · subst e
      simpa using ht hp hn hg ho
    · simpa [e] using h.data hp hn g hg ho
  behind := h.behind

/-- Any frame may change its vectors. -/
theorem setVecs (h : Tracked p e w q) (hx : (w.heap f).SameHeader x) :
    Tracked p e (w.setFrame f x) q :=
  h.setFrame (fun _ => ⟨hx.next, hx.type⟩) fun hp hn hg ho => hx.type ▸ h.data hp hn f hg ho

/-- Frames beside the queue change hands. -/
theorem setOwner {o : Owner} (h : Tracked p e w q) (hf : f ∉ q)
    (hr : w.socket.readFrame = some f → o = .reader)
    (ht : p → ¬Ended w → e ≠ some f → o = .user ∨ o = .reader →
      (w.heap f).type ≠ .endOfStream) : Tracked p e (w.setOwner f o) q where
  __ := h.toCustody.setOwner hf hr
  data hp hn g hg ho := by
    by_cases e : g = f
    · subst e
      exact ht hp hn hg (by simpa using ho)
    · exact h.data hp hn g hg (by simpa [e] using ho)
  behind := h.behind

/-- The front frame leaves the queue and is in hand. -/
theorem dequeue (h : Tracked p none w (f :: q)) (last : Link FrameId) (n : ℕ)
    (hl : w.socket.writeOpen = true →
      last = if (w.heap f).next = none then .head else w.socket.writeFrameLast) :
    InHand p f (w.setSocket { w.socket with
      writeQueueLength := n, writeFrames := (w.heap f).next, writeFrameLast := last }) := by
  refine ⟨q, ?_, h.front⟩
  exact { h.toCustody.dequeue last n hl with
    data := fun hp hn g _ => h.data hp hn g (by simp)
    behind := h.behind }

/-- A frame of the user is added to the queue, where it need not be exempt. -/
theorem enqueue (h : Tracked p (some f) w q) (hop : w.socket.writeOpen = true)
    (hf : w.owner f = .user) : Tracked p none (queued w f) (q ++ [f]) where
  __ := h.toCustody.enqueue hop hf
  data hp hn g _ ho := by
    have hn : ¬Ended w := by
      refine mt (fun he => ?_) hn
      rw [Ended, queued, World.record_trace, ends_append]
      exact List.append_ne_nil_of_left_ne_nil he _
    by_cases e : g = f
    · subst e
      simp [queued] at ho
    · exact h.data hp hn g (by simpa using Ne.symm e) (by simpa [queued, e] using ho)
  behind hp pre g post ht := by
    rcases concat_eq_split ht with ⟨-, he, -⟩ | ⟨post', -, ht'⟩
    · cases he
    · exact h.behind hp pre g post' ht'

end Tracked

theorem inv_init (o : Opening) (proto : π) (data : FrameId → ℕ → UInt8) :
    Inv p (World.init (opened o) proto data) := by
  refine ⟨[], custody_init o proto data, fun _ _ f _ ho => ?_, fun _ pre f post ht => ?_⟩
  · simp [World.init] at ho
  · simp [World.init] at ht

/-- A frame of the user may be taken in hand. -/
theorem Inv.inHand (h : Inv p w) (ho : w.owner f = .user) : InHand p f w := by
  obtain ⟨q, h⟩ := h
  exact ⟨q, h.exempting, h.not_mem (by simp [ho]), h.readFrame_ne (by simp [ho])⟩

theorem Inv.beside (h : Inv p w) (hs : FramesKept w.socket s) : Inv p (w.setSocket s) :=
  h.imp fun _ hq => hq.setSocket hs

theorem Inv.record {y : Io} (h : Inv p w) (hy : p → ∀ f, y = .offer f .endOfStream → Ended w) :
    Inv p (w.record y) := h.imp fun _ hq => hq.record hy

theorem Inv.setVecs (h : Inv p w) (hx : (w.heap f).SameHeader x) : Inv p (w.setFrame f x) :=
  h.imp fun _ hq => hq.setVecs hx

/-- What the read side has is data, until reading ends. -/
theorem Inv.readFrame (h : Inv p w) (hf : w.socket.readFrame = some f) (hp : p) (hn : ¬Ended w) :
    (w.heap f).type ≠ .endOfStream := by
  obtain ⟨q, h⟩ := h
  exact h.data hp hn f (by simp) (Or.inr (h.reader f hf))

/-- The read frame is taken in hand. -/
theorem Inv.detach (h : Inv p w) (hf : w.socket.readFrame = some f) :
    InHand p f (w.setSocket { w.socket with readFrame := none }) := by
  obtain ⟨q, h⟩ := h
  refine ⟨q, h.exempting.setSocket ⟨rfl, rfl, id, by simp⟩, ?_, by simp⟩
  exact h.not_mem (by simp [h.reader f hf])

/-- A frame of the user becomes the read frame. -/
theorem Inv.attach (h : Inv p w) (hf : w.owner f = .user) :
    Inv p ((w.setOwner f .reader).setSocket { w.socket with readFrame := some f }) := by
  obtain ⟨q, h⟩ := h
  have h₁ := h.setOwner (f := f) (o := .reader) (h.not_mem (by simp [hf])) (fun _ => rfl)
    fun hp hn hg _ => h.data hp hn f hg (Or.inl hf)
  exact ⟨q, h.toCustody.attach (by simp [hf]), h₁.data, h₁.behind⟩

/-- A frame in hand is given to the user. -/
theorem InHand.give (h : InHand p f w) : InHand p f (w.setOwner f .user) := by
  obtain ⟨q, h, hf, hr⟩ := h
  exact ⟨q, h.setOwner hf (fun he => absurd he hr) (by simp), hf, hr⟩

theorem InHand.record {y : Io} (h : InHand p f w) (hy : ∀ f, y ≠ .offer f .endOfStream) :
    InHand p f (w.record y) := by
  obtain ⟨q, h, hf, hr⟩ := h
  exact ⟨q, h.record fun _ g he => absurd he (hy g), hf, hr⟩

theorem InHand.settle (h : InHand p f w) (hf : p → ¬Ended w → (w.heap f).type ≠ .endOfStream) :
    Inv p w := by
  obtain ⟨q, h, -⟩ := h
  exact ⟨q, h.settle fun hp hn _ => hf hp hn⟩

end States

section Functions

variable {p : Prop} {env : Env} {d : Delegate π} {w : World Stream π} {q : List FrameId}
  {f : FrameId}

/-- Every return of `m` has the invariant again. Every fault is admitted. -/
abbrev Keeps {α : Type} (p : Prop) (m : StreamM π α) : Prop :=
  Preserves (fun _ => True) (Inv p) Unrelated m

/-- The delegate keeps the invariant, and frames that were sent do not come back to it. -/
structure DelegateKeeps (p : Prop) (d : Delegate π) : Prop extends d.AnswersOwn where
  preserves : d.Preserves (fun _ => True) (Inv p) Unrelated
  frameReturn : p → d.frameReturn = none

theorem keeps_throw {α : Type} {e : Fault} : Keeps p (throw e : StreamM π α) :=
  preserves_throw trivial

theorem keeps_modifySocket {g : Stream → Stream} (hg : ∀ s, FramesKept s (g s)) :
    Keeps p (modifySocket (π := π) g) := fun w h => ⟨h.beside (hg w.socket), trivial⟩

theorem keeps_ask {α : Type} (a : ℕ → α) : Keeps p (ask (σ := Stream) (π := π) a) :=
  fun _ h => ⟨h.imp fun _ hq => hq.tick, trivial⟩

theorem keeps_record {y : Io} (hy : ∀ f, y ≠ .offer f .endOfStream) :
    Keeps p (FrameTransporter.record (σ := Stream) (π := π) y) :=
  fun _ h => ⟨h.record fun _ f he => absurd he (hy f), trivial⟩

theorem keeps_getSocket : Keeps p (getSocket (σ := Stream) (π := π)) := fun _ h => ⟨h, trivial⟩

theorem keeps_error (hd : Keeps p d.error) (e : Option Errno) (l : ℕ) :
    Keeps p (Stream.error env d e l) := by
  refine Preserves.ite _ (fun _ => keeps_throw) fun _ => (keeps_ask _).bind fun now =>
    (keeps_modifySocket fun s => ?_).bind fun _ => keeps_getSocket.bind fun s =>
    (keeps_record (by simp)).bind fun _ => hd.bind fun _ =>
    (keeps_modifySocket fun s => ?_).bind fun _ => (keeps_modifySocket fun s => ?_).bind fun _ =>
    keeps_record (by simp)
  · exact ⟨rfl, rfl, fun _ => rfl, fun _ => id⟩
  all_goals exact ⟨rfl, rfl, id, fun _ => id⟩

theorem keeps_sslProtocolError (hd : Keeps p d.error) (x : SslFailure) :
    Keeps p (sslProtocolError env d x) :=
  Preserves.ite _ (fun _ => keeps_throw) fun _ => keeps_error hd none x.peek

theorem keeps_shutWrite (now : ℚ) : Keeps (π := π) p (modifySocket fun s =>
    { s with writeShutdownAt := some now, writeShutdown := true }) :=
  keeps_modifySocket fun _ => ⟨rfl, rfl, id, fun _ => id⟩

theorem keeps_onSslSentShutdownEvent (hd : Keeps p d.error) :
    Keeps p (onSslSentShutdownEvent env d) := by
  have hread := keeps_modifySocket (π := π) (p := p)
    (framesKept_readSetEvent {SSL_SHUTDOWN_WANT_READ})
  have hwrite := keeps_modifySocket (π := π) (p := p)
    (framesKept_writeUnsetEvent {SSL_SHUTDOWN_WANT_WRITE})
  refine keeps_getSocket.bind fun s => .ite _ (fun _ => keeps_throw) fun _ =>
    .ite _ (fun _ => keeps_throw) fun _ => (keeps_ask _).bind fun sent =>
      .ite _ (fun _ => .when _ fun _ => (keeps_ask _).bind keeps_shutWrite) fun _ =>
        (keeps_ask _).bind fun r => ?_
  cases r with
  | sent =>
    exact (keeps_ask _).bind fun now => (keeps_shutWrite now).bind fun _ =>
      hwrite.bind fun _ => hread
  | completed =>
    refine (keeps_modifySocket fun s => ?_).bind fun _ => hwrite.bind fun _ => hread.bind fun _ =>
      (keeps_ask _).bind fun now => (keeps_shutWrite now).bind fun _ => keeps_record (by simp)
    exact ⟨rfl, rfl, id, fun _ => id⟩
  | failed x =>
    cases hx : x.error with
    | SSL_ERROR_WANT_READ => simpa only [hx] using hread.bind fun _ => hwrite
    | SSL_ERROR_WANT_WRITE =>
      simpa only [hx] using (keeps_modifySocket (framesKept_readUnsetEvent _)).bind fun _ =>
        keeps_modifySocket (framesKept_writeSetEvent _)
    | SSL_ERROR_SSL => simpa only [hx] using keeps_sslProtocolError hd x
    | _ => simpa only [hx] using keeps_error hd (errnoOrReset x) 0

/-- A borrowed frame is in hand, and the user's. -/
theorem poolBorrow_wp (ctx : Context) (type : FrameType) (file : String) (line : ℕ)
    (h : Inv p w) :
    wp (fun _ => True) (poolBorrow ctx type file line) (fun r w' => match r with
      | none => Inv p w'
      | some f => InHand p f w' ∧ w'.owner f = .user ∧ (w'.heap f).type = type ∧
        w'.socket = w.socket) w := by
  obtain ⟨q, h⟩ := h
  rw [poolBorrow, wp_bind, wp_ask, wp_bind, wp_get]
  cases ctx.framePool w.clock with
  | none => exact ⟨q, h.tick⟩
  | some f =>
    dsimp only
    rw [wp_ite]
    refine ⟨fun ho => ?_, fun _ => ⟨q, h.tick⟩⟩
    have ho : w.owner f = .pool := ho
    have hf : f ∉ q := h.not_mem (by simp [ho])
    have hr : w.socket.readFrame ≠ some f := h.readFrame_ne (by simp [ho])
    have h₁ := h.tick.exempting (e := some f).setFrame (f := f)
      (x := Pool.resetFrame (w.heap f) type file line) (by simp [ho]) (by simp)
    have h₂ := h₁.setOwner (f := f) (o := .user) hf (fun he => absurd he hr) (by simp)
    exact ⟨⟨q, h₂, hf, hr⟩, by simp, by simp [Pool.resetFrame], rfl⟩

/-- A frame of the user goes back to the pool. -/
theorem frameReturn_wp (ctx : Context) (h : InHand p f w) (ho : w.owner f = .user) :
    wp (fun _ => True) (frameReturn ctx f) (fun _ => Inv p) w := by
  obtain ⟨q, h, hf, hr⟩ := h
  rw [frameReturn, wp_bind, wp_getFrame, wp_ite, wp_ite, wp_ite]
  refine ⟨fun _ => trivial, fun _ => ⟨fun _ => trivial, fun _ => ⟨fun _ => trivial, fun _ => ?_⟩⟩⟩
  rw [wp_bind, wp_ask, wp_bind, wp_setFrame, wp_bind, wp_setOwner, wp_record]
  have h₁ := h.tick.setFrame (f := f) (x := { w.heap f with
    type := .free, next := ctx.availableFrames w.clock, lastSeenByFile := none,
    lastSeenByLine := 0 }) (by simp [ho]) (by simp)
  have h₂ := h₁.setOwner (f := f) (o := .pool) hf (fun he => absurd he hr) (by simp)
  exact ⟨q, (h₂.settle (by simp)).record (by simp)⟩

theorem releaseFrame_wp (hd : DelegateKeeps p d) (side : Char) (h : InHand p f w) :
    wp (fun _ => True) (releaseFrame env d f side) (fun _ => Inv p) w := by
  have h₁ : InHand p f ((w.setOwner f .user).record (.release f side)) := h.give.record (by simp)
  rw [releaseFrame, wp_bind, wp_setOwner, wp_bind, wp_record]
  cases hg : d.frameReturn with
  | none => exact frameReturn_wp env.toContext h₁ (by simp)
  | some g =>
    have hp : ¬p := fun hp => by simp [hd.frameReturn hp] at hg
    refine wp_mono (hd.preserves.frameReturn g hg f side _ (h₁.settle fun h => absurd h hp)) ?_
    exact fun _ _ h' => h'.1

/-- Whatever the delegate answers, the frame it refuses is its own. -/
theorem deliver_wp (hd : DelegateKeeps p d) (last : Bool) (h : InHand p f w)
    (ht : p → ¬Ended w → (w.heap f).type ≠ .endOfStream) :
    wp (fun _ => True) (deliver d f last)
      (fun taken w' => Inv p w' ∧ (taken = false → w'.owner f = .user)) w := by
  have h₁ : Inv p ((w.setOwner f .user).record (.offer f (w.heap f).type)) := by
    refine (h.give.settle ht).record fun hp g he => ?_
    by_contra hn
    exact ht hp hn (Io.offer.inj he).2
  rw [deliver, wp_bind, wp_getFrame, wp_bind, wp_setOwner, wp_bind, wp_record, wp_bind]
  refine wp_mono (wp_and (hd.preserves.read f _ h₁) (hd.refuse f _)) ?_
  rintro taken w₂ ⟨⟨h₂, -⟩, ho⟩
  exact ⟨h₂.record (by simp), ho⟩

theorem deliverOrRelease_wp (hd : DelegateKeeps p d) (last : Bool) (h : InHand p f w)
    (ht : p → ¬Ended w → (w.heap f).type ≠ .endOfStream) :
    wp (fun _ => True) (deliverOrRelease env d f last) (fun _ => Inv p) w := by
  rw [deliverOrRelease, wp_bind]
  refine wp_mono (deliver_wp hd last h ht) ?_
  rintro taken w₁ ⟨h₁, ho⟩
  rw [wp_ite]
  refine ⟨fun _ => h₁, fun ht => releaseFrame_wp hd 'R' (h₁.inHand ?_)⟩
  exact ho (by simpa using ht)

theorem keeps_sslWriteFailed (hd : Keeps p d.error) (x : SslFailure) :
    Keeps p (sslWriteFailed env d x) := by
  unfold sslWriteFailed
  cases x.error with
  | SSL_ERROR_WANT_READ =>
    exact (keeps_modifySocket (framesKept_readSetEvent _)).bind fun _ =>
      keeps_modifySocket (framesKept_writeUnsetEvent _)
  | SSL_ERROR_WANT_WRITE =>
    exact (keeps_modifySocket framesKept_awaitWrite).bind fun _ =>
      keeps_modifySocket (framesKept_readUnsetEvent _)
  | SSL_ERROR_SYSCALL =>
    refine .ite _ (fun _ => (keeps_modifySocket fun s => ?_).bind fun _ =>
      keeps_modifySocket (framesKept_writeUnsetEvent _)) fun _ => keeps_error hd _ 0
    exact ⟨rfl, rfl, id, fun _ => id⟩
  | SSL_ERROR_SSL => exact keeps_sslProtocolError hd x
  | _ => exact keeps_error hd _ 0

/-- Either the write loop returns, or bytes were taken and nothing else happened. -/
theorem transmit_wp (hd : Keeps p d.error) (bytes : List UInt8) (h : Tracked p none w q) :
    wp (fun _ => True) (transmit env d bytes) (fun r w' => match r with
      | none => Inv p w'
      | some _ => w'.heap = w.heap ∧ Tracked p none w' q) w := by
  have hrec : ∀ y, Tracked p none (w.tick.record (.send y)) q := fun y => h.tick.record (by simp)
  have hstop : ∀ {m : StreamM π Unit} (y : List UInt8), Keeps p m →
      wp (fun _ => True) (m >>= fun _ => pure none) (fun (r : Option ℕ) w' => match r with
        | none => Inv p w'
        | some _ => w'.heap = w.heap ∧ Tracked p none w' q) (w.tick.record (.send y)) := by
    intro m y hm
    rw [wp_bind]
    exact wp_mono (hm _ ⟨q, hrec y⟩) fun _ w' h' => h'.1
  have hawait := keeps_modifySocket (π := π) (p := p) framesKept_awaitWrite
  rw [transmit, wp_bind, wp_getSocket, wp_ite]
  refine ⟨fun _ => ?_, fun _ => ?_⟩
  · rw [wp_bind, wp_ask]
    cases env.send w.socket w.clock with
    | failed e =>
      cases e with
      | EAGAIN => exact hstop [] hawait
      | _ => exact hstop [] (keeps_error hd _ 0)
    | sent n =>
      dsimp only
      rw [wp_bind, wp_record, wp_ite]
      exact ⟨fun _ => hstop _ hawait, fun _ => ⟨rfl, hrec _⟩⟩
  · rw [wp_bind, wp_ask]
    cases env.sslWrite w.socket w.clock with
    | failed x => exact hstop [] (keeps_sslWriteFailed hd x)
    | sent n => exact ⟨rfl, hrec _⟩

theorem dequeueFrame_wp (hd : DelegateKeeps p d) (h : Tracked p none w (f :: q)) :
    wp (fun _ => True) (dequeueFrame env d f) (fun _ => Inv p) w := by
  rw [dequeueFrame, wp_bind, wp_getSocket, wp_bind, wp_getFrame, wp_ite]
  refine ⟨fun _ => trivial, fun _ => ?_⟩
  rw [wp_bind, wp_modifySocket]
  exact releaseFrame_wp hd 'W' (h.dequeue _ _ fun _ => rfl)

theorem writeVec_wp (hd : DelegateKeeps p d) (h : Tracked p none w (f :: q)) :
    wp (fun _ => True) (writeVec env d f) (fun _ => Inv p) w := by
  rw [writeVec, wp_bind, wp_getFrame, wp_bind]
  cases (w.heap f).getVec with
  | error e => trivial
  | ok v =>
    rw [wp_liftM_ok]
    cases v with
    | none => trivial
    | some v =>
      dsimp only
      rw [wp_ite]
      refine ⟨fun _ => trivial, fun _ => ?_⟩
      rw [wp_bind]
      refine wp_mono (transmit_wp hd.preserves.error _ h) fun r w₁ h₁ => ?_
      cases r with
      | none => exact h₁
      | some n =>
        obtain ⟨hheap, h₁⟩ := h₁
        dsimp only
        rw [wp_bind]
        cases hx : (w.heap f).advanceVec v n with
        | error e => trivial
        | ok x =>
          have hs := Frame.SameHeader.of_advanceVec hx
          rw [← hheap] at hs
          have h₂ := h₁.setVecs hs
          rw [wp_liftM_ok, wp_bind, wp_setFrame, wp_ite]
          refine ⟨fun _ => ?_, fun _ => ?_⟩
          · rw [wp_bind]
            exact wp_mono (keeps_modifySocket framesKept_awaitWrite _ ⟨_, h₂⟩) fun _ _ h' => h'.1
          · rw [wp_bind]
            cases hy : x.nextVec with
            | error e => trivial
            | ok r =>
              obtain ⟨more, y⟩ := r
              have h₃ := h₂.setVecs (f := f) (x := y) (by
                simpa using Frame.SameHeader.of_nextVec hy)
              rw [wp_liftM_ok, wp_bind, wp_setFrame, wp_ite]
              refine ⟨fun _ => ⟨_, h₃⟩, fun _ => ?_⟩
              rw [wp_bind]
              exact dequeueFrame_wp hd h₃

theorem writeEndOfStream_wp (hd : DelegateKeeps p d) (h : Tracked p none w (f :: q))
    (ht : (w.heap f).type = .endOfStream) :
    wp (fun _ => True) (writeEndOfStream env d f) (fun _ => Inv p) w := by
  have hclosed := (h.closed f (by simp) ht).1
  rw [writeEndOfStream, wp_bind, wp_getFrame, wp_bind, wp_modifySocket, wp_bind]
  refine wp_mono (releaseFrame_wp hd 'W' (h.dequeue w.socket.writeFrameLast
    w.socket.writeQueueLength fun ho => ?_)) fun _ w₁ h₁ => ?_
  · simp [hclosed] at ho
  · refine wp_mono ((keeps_getSocket.bind fun s => .ite _ (fun _ => keeps_throw) fun _ =>
      (keeps_modifySocket (framesKept_writeUnsetEvent _)).bind fun _ => .ite _ (fun _ => ?_)
        fun _ => ?_) w₁ h₁) fun _ _ h' => h'.1
    · exact keeps_onSslSentShutdownEvent hd.preserves.error
    · exact (keeps_ask _).bind fun now => (keeps_shutWrite now).bind fun _ => keeps_record (by simp)

theorem keeps_writeLoop (hd : DelegateKeeps p d) (n : ℕ) : Keeps p (writeLoop env d n) := by
  induction n with
  | zero =>
    exact keeps_getSocket.bind fun s => .when _ fun _ => keeps_modifySocket framesKept_awaitWrite
  | succ n ih =>
    refine preserves_getSocket_bind ?_
    rintro w ⟨q, h⟩
    cases hf : w.socket.writeFrames with
    | none => exact ⟨⟨q, h⟩, trivial⟩
    | some f =>
      obtain ⟨q, rfl, -⟩ := (hf ▸ h.chain).exists_cons
      dsimp only
      rw [wp_bind, wp_getFrame, wp_ite]
      refine ⟨fun ht => wp_mono (writeEndOfStream_wp hd h ht) fun _ _ h' => ⟨h', trivial⟩,
        fun _ => ?_⟩
      rw [wp_bind]
      refine wp_mono (writeVec_wp hd h) fun more w₁ h₁ => ?_
      rw [wp_ite]
      exact ⟨fun _ => wp_mono (ih w₁ h₁) fun _ _ h' => ⟨h'.1, trivial⟩, fun _ => ⟨h₁, trivial⟩⟩

theorem keeps_writeReal (hd : DelegateKeeps p d) : Keeps p (writeReal env d) :=
  keeps_getSocket.bind fun _ => .ite _ (fun _ => keeps_throw) fun _ =>
    .ite _ (fun _ => keeps_throw) fun _ => keeps_writeLoop hd _

theorem keeps_onWriteEvent (hd : DelegateKeeps p d) : Keeps p (onWriteEvent env d) := by
  have hunset := keeps_modifySocket (π := π) (p := p)
    (framesKept_writeUnsetEvent {WRITE_WANT_WRITE})
  refine keeps_getSocket.bind fun s => .ite _ (fun _ => keeps_throw) fun _ =>
    (keeps_modifySocket fun s => ?_).bind fun _ => .ite _ (fun _ =>
      (keeps_modifySocket fun s => ?_).bind fun _ => (keeps_writeReal hd).bind fun _ =>
        keeps_getSocket.bind fun s => .when _ fun _ => hunset) fun _ => hunset
  all_goals exact ⟨rfl, rfl, id, fun _ => id⟩

/-- A frame of the user is queued or refused. -/
theorem write_wp (hd : DelegateKeeps p d) (h : InHand p f w) (ho : w.owner f = .user)
    (ht : w.socket.writeOpen = false → Inv p w) :
    wp (fun _ => True) (Stream.write env d f) (fun _ => Inv p) w := by
  rw [Stream.write, wp_bind, wp_getSocket, wp_ite]
  refine ⟨ht, fun hop => ?_⟩
  obtain ⟨q, h, -⟩ := h
  have h₁ : Inv p (queued w f) := ⟨_, h.enqueue (by simpa using hop) ho⟩
  rw [wp_bind, wp_enqueueFrame]
  refine wp_mono ((Preserves.ite _ (fun _ => (Preserves.when _ fun _ => ?_).bind fun _ =>
    preserves_pure _) fun _ => (keeps_writeReal hd).bind fun _ => preserves_pure _) _ h₁)
    fun _ _ h' => h'.1
  exact keeps_modifySocket (framesKept_writeSetEvent _)

theorem keeps_cntlWriteShutdown (hd : DelegateKeeps p d) : Keeps p (cntlWriteShutdown env d) := by
  refine preserves_getSocket_bind fun w h => ?_
  rw [wp_ite, wp_ite]
  refine ⟨fun _ => ⟨h, trivial⟩, fun _ => ⟨fun _ => ⟨h, trivial⟩, fun ho => ?_⟩⟩
  rw [wp_bind]
  refine wp_mono (poolBorrow_wp env.toContext _ _ _ h) fun r w₁ h₁ => ?_
  cases r with
  | none => exact ⟨h₁, trivial⟩
  | some f =>
    obtain ⟨h₁, hu, -, hs⟩ := h₁
    rw [wp_bind, wp_record]
    have h₂ : InHand p f (w₁.record (.obtained f)) := h₁.record (by simp)
    refine wp_mono (write_wp hd h₂ hu fun hc => ?_) fun _ _ h' => ⟨h', trivial⟩
    exact absurd (hs ▸ hc) ho

theorem keeps_cntlReadPause (on : Bool) : Keeps p (cntlReadPause (π := π) on) := by
  refine keeps_getSocket.bind fun s => .ite _ (fun _ => ?_) fun _ =>
    .ite _ (fun _ => keeps_throw) fun _ => ?_
  · refine (keeps_modifySocket fun s => ?_).bind fun _ => (Preserves.when _ fun _ =>
      keeps_modifySocket (framesKept_readUnsetEvent ∅)).bind fun _ => preserves_pure _
    exact ⟨rfl, rfl, id, fun _ => id⟩
  · refine (keeps_modifySocket fun s => ?_).bind fun _ => (Preserves.when _ fun _ =>
      keeps_modifySocket (framesKept_readSetEvent ∅)).bind fun _ => preserves_pure _
    exact ⟨rfl, rfl, id, fun _ => id⟩

theorem keeps_pauseNoframes : Keeps p (pauseNoframes (π := π)) := by
  refine (keeps_modifySocket fun s => ?_).bind fun _ => (keeps_cntlReadPause true).bind fun _ =>
    preserves_pure _
  exact ⟨rfl, rfl, id, fun _ => id⟩

theorem keeps_uplinkPartial (hd : DelegateKeeps p d) : Keeps p (uplinkPartial env d) := by
  refine preserves_getSocket_bind fun w h => ?_
  cases hf : w.socket.readFrame with
  | none => exact ⟨h, trivial⟩
  | some f =>
    dsimp only
    rw [wp_bind, wp_getFrame, wp_when]
    refine ⟨fun _ => ?_, fun _ => ⟨h, trivial⟩⟩
    rw [wp_bind, wp_modifySocket]
    exact wp_mono (deliverOrRelease_wp hd true (h.detach hf) (h.readFrame hf)) fun _ _ h' =>
      ⟨h', trivial⟩

/-- The end-of-stream frame is in hand when the end is recorded. -/
theorem endOfStreamFrame_wp (h : Inv p w) :
    wp (fun _ => True) (endOfStreamFrame env) (fun r w' => match r with
      | none => Inv p (w'.record (.readEnd none))
      | some f => InHand p f (w'.record (.readEnd (some f)))) w := by
  have hborrow : wp (fun _ => True) (poolBorrow env.toContext .endOfStream "stream.c" 583)
      (fun r w' => match r with
        | none => Inv p (w'.record (.readEnd none))
        | some f => InHand p f (w'.record (.readEnd (some f)))) w := by
    refine wp_mono (poolBorrow_wp env.toContext .endOfStream "stream.c" 583 h) fun r w' h' => ?_
    cases r with
    | none => exact h'.record (by simp)
    | some f => exact h'.1.record (by simp)
  rw [endOfStreamFrame, wp_bind, wp_getSocket]
  cases hf : w.socket.readFrame with
  | none => exact hborrow
  | some f =>
    dsimp only
    rw [wp_bind, wp_getFrame, wp_ite]
    refine ⟨fun _ => ?_, fun _ => hborrow⟩
    obtain ⟨q, h₁, hq, hr⟩ := h.detach hf
    have ho : w.owner f = .reader := h.choose_spec.reader f hf
    rw [wp_bind, wp_modifySocket, wp_bind, wp_setFrame, wp_pure]
    have h₂ := h₁.setFrame (f := f)
      (x := { (w.heap f).formatEmpty with type := .endOfStream }) (by simp [ho]) (by simp)
    exact ⟨q, h₂.record (by simp), hq, hr⟩

theorem keeps_readShutdownNow (hd : DelegateKeeps p d) : Keeps p (readShutdownNow env d) := by
  refine ((keeps_modifySocket (framesKept_readUnsetEvent _)).bind fun _ =>
    preserves_pure _).bind fun _ => (keeps_modifySocket fun s => ?_).bind fun _ =>
      (keeps_uplinkPartial hd).bind fun _ => ?_
  · exact ⟨rfl, rfl, id, fun _ => id⟩
  intro w h
  rw [wp_bind]
  refine wp_mono (endOfStreamFrame_wp h) fun r w₁ h₁ => ?_
  rw [wp_bind, wp_record]
  cases r with
  | none => exact keeps_pauseNoframes _ h₁
  | some f =>
    exact wp_mono (deliverOrRelease_wp hd false h₁ fun _ hn => absurd (ended_readEnd _) hn)
      fun _ _ h' => ⟨h', trivial⟩

/-- The read frame is the current one or one that is taken now. -/
theorem takeReadFrame_wp (hd : DelegateKeeps p d) (h : Inv p w) :
    wp (fun _ => True) (takeReadFrame env d)
      (fun r w' => Inv p w' ∧ ∀ f, r = some f → w'.socket.readFrame = some f) w := by
  have hfetch : wp (fun _ => True) (fetchReadFrame env d)
      (fun r w' => Inv p w' ∧ ∀ f, r = some f → w'.owner f = .user) w := by
    rw [fetchReadFrame]
    cases hg : d.getReadFrame with
    | some g =>
      exact wp_mono (wp_and (hd.preserves.getReadFrame g hg w h) (hd.fetch g hg w))
        fun _ _ h' => ⟨h'.1.1, h'.2⟩
    | none =>
      dsimp only
      rw [wp_bind]
      refine wp_mono (poolBorrow_wp env.toContext _ _ _ h) fun r w₁ h₁ => ?_
      cases r with
      | none => exact ⟨h₁, by simp⟩
      | some f =>
        obtain ⟨h₁, ho, ht, -⟩ := h₁
        have h₁ : Inv p w₁ := h₁.settle (by simp [ht])
        dsimp only
        rw [wp_bind, wp_getFrame, wp_bind]
        cases hx : (w₁.heap f).formatSimple with
        | error e => trivial
        | ok x =>
          rw [wp_liftM_ok, wp_bind, wp_setFrame, wp_pure]
          refine ⟨h₁.setVecs (Frame.SameHeader.of_formatSimple hx), fun g hg => ?_⟩
          obtain rfl := Option.some.inj hg
          exact ho
  rw [takeReadFrame, wp_bind, wp_getSocket, wp_ite]
  refine ⟨fun _ => ⟨h, fun f hf => hf⟩, fun _ => ?_⟩
  rw [wp_bind]
  refine wp_mono hfetch ?_
  rintro r w₁ ⟨h₁, ho⟩
  cases r with
  | none =>
    rw [wp_bind]
    exact wp_mono (keeps_pauseNoframes _ h₁) fun _ w₂ h₂ => ⟨h₂.1, by simp⟩
  | some f =>
    have h₂ : Inv p (w₁.record (.obtained f)) := h₁.record (by simp)
    rw [wp_bind, wp_record, wp_bind, wp_setOwner, wp_bind, wp_modifySocket, wp_pure]
    exact ⟨h₂.attach (ho f rfl), fun g hg => hg⟩

theorem keeps_sslReadFailed (hd : DelegateKeeps p d) (x : SslFailure) :
    Keeps p (sslReadFailed env d x) := by
  have hshut : Keeps p (readShutdownNow env d) := keeps_readShutdownNow hd
  have herror := hd.preserves.error
  have hclear : ∀ e, Keeps (π := π) p (modifySocket fun s => { s with
      sysErrno := e, sslError := 0 }) :=
    fun e => keeps_modifySocket fun _ => ⟨rfl, rfl, id, fun _ => id⟩
  unfold sslReadFailed
  cases x.error with
  | SSL_ERROR_WANT_READ =>
    exact (keeps_modifySocket (framesKept_readSetEvent _)).bind fun _ =>
      keeps_modifySocket (framesKept_writeUnsetEvent _)
  | SSL_ERROR_WANT_WRITE =>
    exact (keeps_modifySocket (framesKept_readUnsetEvent _)).bind fun _ =>
      keeps_modifySocket (framesKept_writeSetEvent _)
  | SSL_ERROR_ZERO_RETURN =>
    exact .ite _ (fun _ => keeps_throw) fun _ => .ite _ (fun _ => keeps_throw) fun _ =>
      (hclear _).bind fun _ => (keeps_record (by simp)).bind fun _ => hshut
  | SSL_ERROR_SYSCALL =>
    exact .ite _ (fun _ => .ite _ (fun _ => keeps_throw) fun _ => (hclear _).bind fun _ => hshut)
      fun _ => (Preserves.when _ fun _ => keeps_error herror _ 0).bind fun _ => hshut
  | SSL_ERROR_SSL => exact (keeps_sslProtocolError herror x).bind fun _ => hshut
  | unexpected => exact (keeps_error herror _ 0).bind fun _ => hshut

/-- The frames stay as they are while bytes are received. -/
theorem receive_wp (hd : DelegateKeeps p d) (v : Vec) (size : ℕ) (h : Inv p w) :
    wp (fun _ => True) (receive env d v size) (fun r w' => Inv p w' ∧
      (r ≠ none → w'.heap = w.heap ∧ w'.socket.readFrame = w.socket.readFrame)) w := by
  have hstop : ∀ {m : StreamM π Unit} {w₁ : World Stream π}, Inv p w₁ → Keeps p m →
      wp (fun _ => True) (m >>= fun _ => pure none) (fun (r : Option (List UInt8)) w' =>
        Inv p w' ∧ (r ≠ none → w'.heap = w.heap ∧
          w'.socket.readFrame = w.socket.readFrame)) w₁ := by
    intro m w₁ h₁ hm
    rw [wp_bind]
    exact wp_mono (hm w₁ h₁) fun _ _ h' => ⟨h'.1, by simp⟩
  have htick : Inv p w.tick := (keeps_ask (fun _ => ()) w h).1
  have hrec : ∀ {w₁ : World Stream π} bytes, Inv p w₁ → Inv p (w₁.record (.recv v size bytes)) :=
    fun bytes h₁ => h₁.record (by simp)
  have hshut : Keeps p (readShutdownNow env d) := keeps_readShutdownNow hd
  rw [receive, wp_bind, wp_getSocket, wp_ite]
  refine ⟨fun _ => ?_, fun _ => ?_⟩
  · rw [recvPlain, wp_bind, wp_getSocket, wp_bind, wp_ask]
    cases env.recv w.socket w.clock with
    | failed e =>
      have hfail : wp (fun _ => True) (do
          Stream.error env d (some e) 0
          readShutdownNow env d
          return none) (fun (r : Option (List UInt8)) w' => Inv p w' ∧ (r ≠ none →
            w'.heap = w.heap ∧ w'.socket.readFrame = w.socket.readFrame))
          (w.tick.record (.recv v size [])) := by
        rw [wp_bind]
        exact wp_mono (keeps_error hd.preserves.error (some e) 0 _ (hrec [] htick)) fun _ _ h' =>
          hstop h'.1 hshut
      cases e with
      | EAGAIN =>
        exact hstop (hrec [] htick) (keeps_modifySocket (framesKept_readSetEvent _))
      | _ => exact hfail
    | data bytes =>
      dsimp only
      rw [wp_bind, wp_record, wp_ite]
      refine ⟨fun _ => ?_, fun _ => ⟨hrec _ htick, fun _ => ⟨rfl, rfl⟩⟩⟩
      rw [wp_bind, wp_modifySocket]
      exact hstop ((hrec _ htick).beside ⟨rfl, rfl, id, fun _ => id⟩) hshut
  · rw [wp_bind]
    have hagain : wp (fun _ => True) (sslReadAgain env) (fun _ w' => Inv p w' ∧
        w'.heap = w.heap ∧ w'.socket.readFrame = w.socket.readFrame) w := by
      rw [sslReadAgain, wp_bind, wp_getSocket, wp_bind, wp_ask]
      cases env.sslRead w.socket w.clock with
      | data b bs => exact ⟨htick, rfl, rfl⟩
      | failed x =>
        dsimp only
        rw [wp_ite]
        refine ⟨fun _ => ?_, fun _ => ⟨htick, rfl, rfl⟩⟩
        have h₁ := htick.beside (framesKept_awaitWrite w.socket)
        rw [wp_bind, wp_modifySocket, wp_bind, wp_getSocket, wp_ask]
        refine ⟨(keeps_ask (fun _ => ()) _ h₁).1, rfl, ?_⟩
        change (awaitWrite w.socket).readFrame = _
        rw [awaitWrite, writeSetEvent_eq]
    refine wp_mono hagain ?_
    rintro r w₁ ⟨h₁, hheap, hr⟩
    cases r with
    | data b bs => exact ⟨hrec _ h₁, fun _ => ⟨hheap, hr⟩⟩
    | failed x =>
      dsimp only
      rw [wp_bind, wp_record]
      exact hstop (hrec [] h₁) (keeps_sslReadFailed hd x)

/-- The read frame is given away, or taken again. -/
theorem uplinkWith_wp (hd : DelegateKeeps p d) (h : Inv p w) (hf : w.socket.readFrame = some f)
    {m : StreamM π Unit} (hm : ∀ w, w.owner f = .user → wp (fun _ => True) m (fun _ w' =>
      w' = (w.setOwner f .reader).setSocket { w.socket with readFrame := some f }) w) :
    wp (fun _ => True) (do
      modifySocket fun s => { s with readFrame := none }
      if ← deliver d f false then return ()
      else m) (fun _ => Inv p) w := by
  rw [wp_bind, wp_modifySocket, wp_bind]
  refine wp_mono (deliver_wp hd false (h.detach hf) (h.readFrame hf)) ?_
  rintro taken w₂ ⟨h₂, ho⟩
  rw [wp_ite]
  refine ⟨fun _ => h₂, fun ht => ?_⟩
  have ho : w₂.owner f = .user := ho (by simpa using ht)
  refine wp_mono (hm w₂ ho) fun _ w₃ he => ?_
  subst he
  exact h₂.attach ho

theorem uplink_wp (hd : DelegateKeeps p d) (h : Inv p w) (hf : w.socket.readFrame = some f) :
    wp (fun _ => True) (uplink d f) (fun _ => Inv p) w :=
  uplinkWith_wp hd h hf fun _ _ => rfl

theorem uplinkAlone_wp (hd : DelegateKeeps p d) (h : Inv p w) (hf : w.socket.readFrame = some f) :
    wp (fun _ => True) (uplinkAlone d f) (fun _ => Inv p) w :=
  uplinkWith_wp hd h hf fun w _ => by
    rw [wp_bind, wp_getSocket, wp_ite]
    exact ⟨fun _ => trivial, fun _ => rfl⟩

theorem vecAdvanced_wp (hd : DelegateKeeps p d) (filled : Bool) (h : Inv p w)
    (hf : w.socket.readFrame = some f) :
    wp (fun _ => True) (vecAdvanced d f filled) (fun _ => Inv p) w := by
  have hwant : ∀ w, Inv p w → wp (fun _ => True) (do
      modifySocket (readSetEvent {READ_WANT_READ})
      return false) (fun (_ : Bool) => Inv (π := π) p) w :=
    fun w h => h.beside (framesKept_readSetEvent _ _)
  rw [vecAdvanced, wp_bind, wp_getSocket, wp_ite]
  refine ⟨fun _ => ?_, fun _ => ?_⟩
  · rw [wp_bind, wp_when]
    exact ⟨fun _ => wp_mono (uplinkAlone_wp hd h hf) fun _ w₁ h₁ => hwant w₁ h₁,
      fun _ => hwant w h⟩
  · rw [wp_bind, wp_getFrame, wp_bind]
    cases hx : (w.heap f).nextVec with
    | error e => trivial
    | ok r =>
      obtain ⟨more, x⟩ := r
      have h₁ : Inv p (w.setFrame f x) := h.setVecs (Frame.SameHeader.of_nextVec hx)
      have hup : wp (fun _ => True) (do
          uplink d f
          let s ← getSocket
          return decide (READ_WANT_READ ∈ s.readEvents)) (fun _ => Inv p) (w.setFrame f x) := by
        rw [wp_bind]
        exact wp_mono (uplink_wp hd h₁ hf) fun _ _ h₂ => h₂
      rw [wp_liftM_ok, wp_bind, wp_setFrame, wp_ite, wp_ite]
      exact ⟨fun _ => hup, fun _ => ⟨fun _ => hup, fun _ => h₁⟩⟩

theorem readVec_wp (hd : DelegateKeeps p d) (h : Inv p w) (hf : w.socket.readFrame = some f) :
    wp (fun _ => True) (readVec env d f) (fun _ => Inv p) w := by
  rw [readVec, wp_bind, wp_getFrame, wp_bind]
  cases (w.heap f).getVec with
  | error e => trivial
  | ok v =>
    rw [wp_liftM_ok]
    cases v with
    | none => trivial
    | some v =>
      dsimp only
      rw [wp_ite]
      refine ⟨fun _ => trivial, fun _ => ?_⟩
      rw [wp_bind]
      refine wp_mono (receive_wp hd v _ h) ?_
      rintro r w₁ ⟨h₁, hs⟩
      cases r with
      | none => exact h₁
      | some bytes =>
        obtain ⟨hheap, hr⟩ := hs (by simp)
        dsimp only
        rw [wp_bind]
        cases hx : ((w.heap f).write (v.offset + v.position) bytes).advanceVec v bytes.length with
        | error e => trivial
        | ok x =>
          have hx : (w₁.heap f).SameHeader x := by
            rw [hheap]
            have hs := Frame.SameHeader.of_advanceVec hx
            exact ⟨hs.next, hs.type, hs.file, hs.line⟩
          rw [wp_liftM_ok, wp_bind, wp_setFrame]
          exact vecAdvanced_wp hd _ (h₁.setVecs hx) (hr.trans hf)

theorem keeps_readLoop (hd : DelegateKeeps p d) (n : ℕ) : Keeps p (readLoop env d n) := by
  induction n with
  | zero => exact keeps_modifySocket (framesKept_readSetEvent _)
  | succ n ih =>
    intro w h
    rw [readLoop, wp_bind]
    refine wp_mono (takeReadFrame_wp hd h) ?_
    rintro r w₁ ⟨h₁, hr⟩
    cases r with
    | none => exact ⟨h₁, trivial⟩
    | some f =>
      dsimp only
      rw [wp_bind]
      refine wp_mono (readVec_wp hd h₁ (hr f rfl)) fun more w₂ h₂ => ?_
      rw [wp_ite]
      exact ⟨fun _ => wp_mono (ih w₂ h₂) fun _ _ h₃ => ⟨h₃.1, trivial⟩, fun _ => ⟨h₂, trivial⟩⟩

theorem keeps_onReadEvent (hd : DelegateKeeps p d) : Keeps p (onReadEvent env d) :=
  keeps_getSocket.bind fun _ => .ite _ (fun _ => keeps_throw) fun _ => keeps_readLoop hd _

theorem keeps_cntlAbort (hd : DelegateKeeps p d) : Keeps p (cntlAbort env d) :=
  (keeps_readShutdownNow hd).bind fun _ => (keeps_modifySocket
    (framesKept_writeUnsetEvent _)).bind fun _ => (keeps_ask _).bind fun now =>
      (keeps_shutWrite now).bind fun _ => (keeps_record (by simp)).bind fun _ => preserves_pure _

theorem keeps_connected (hd : DelegateKeeps p d) : Keeps p (do
    FrameTransporter.record .connected
    d.connected
    onWriteEvent env d) :=
  (keeps_record (by simp)).bind fun _ => hd.preserves.connected.bind fun _ => keeps_onWriteEvent hd

theorem keeps_doHandshake (hd : DelegateKeeps p d) : Keeps p (doHandshake env d) := by
  refine keeps_getSocket.bind fun s => (keeps_ask _).bind fun r => ?_
  cases r with
  | completed verified =>
    refine .ite _ (fun _ => keeps_error hd.preserves.error _ 0) fun _ => ?_
    refine (keeps_modifySocket (framesKept_writeUnsetEvent _)).bind fun _ =>
      (keeps_modifySocket (framesKept_readUnsetEvent _)).bind fun _ => ?_
    refine (keeps_modifySocket (g := started) framesKept_started).bind fun _ =>
      (keeps_modifySocket fun s => ?_).bind fun _ => keeps_connected hd
    exact ⟨rfl, rfl, id, fun _ => id⟩
  | failed x =>
    cases hx : x.error with
    | SSL_ERROR_WANT_READ =>
      simpa only [hx] using (keeps_modifySocket (framesKept_readSetEvent _)).bind fun _ =>
        keeps_modifySocket (framesKept_writeUnsetEvent _)
    | SSL_ERROR_WANT_WRITE =>
      simpa only [hx] using (keeps_modifySocket (framesKept_readUnsetEvent _)).bind fun _ =>
        keeps_modifySocket (framesKept_writeSetEvent _)
    | SSL_ERROR_SSL => simpa only [hx] using keeps_sslProtocolError hd.preserves.error x
    | _ => simpa only [hx] using keeps_error hd.preserves.error (errnoOrReset x) 0

theorem keeps_onSslHandshakeEvent (hd : DelegateKeeps p d) :
    Keeps p (onSslHandshakeEvent env d) := by
  refine keeps_getSocket.bind fun s => .ite _ (fun _ => keeps_throw) fun _ =>
    .ite _ (fun _ => keeps_throw) fun _ => (Preserves.when _ fun _ =>
      (keeps_record (by simp)).bind fun _ => keeps_modifySocket fun s => ?_).bind fun _ =>
        keeps_doHandshake hd
  exact ⟨rfl, rfl, id, fun _ => id⟩

theorem keeps_onWriteReady (hd : DelegateKeeps p d) : Keeps p (onWriteReady env d) :=
  keeps_getSocket.bind fun _ => (Preserves.when _ fun _ => keeps_onWriteEvent hd).bind fun _ =>
    keeps_getSocket.bind fun _ => .when _ fun _ =>
      (Preserves.when _ fun _ => keeps_onSslHandshakeEvent hd).bind fun _ =>
        keeps_getSocket.bind fun _ => (Preserves.when _ fun _ =>
          keeps_onSslSentShutdownEvent hd.preserves.error).bind fun _ =>
            keeps_getSocket.bind fun _ => .when _ fun _ => keeps_onReadEvent hd

theorem keeps_onConnectEvent (hd : DelegateKeeps p d) : Keeps p (onConnectEvent env d) := by
  refine keeps_getSocket.bind fun s => .ite _ (fun _ => keeps_throw) fun _ =>
    (keeps_ask _).bind fun r => ?_
  cases r with
  | unknown => exact preserves_pure _
  | error e => exact keeps_error hd.preserves.error _ 0
  | none =>
    refine (keeps_modifySocket (framesKept_writeUnsetEvent _)).bind fun _ => .ite _ (fun _ =>
      .ite _ (fun _ => keeps_throw) fun _ => ?_) fun _ => ?_
    · exact (keeps_modifySocket (framesKept_writeSetEvent _)).bind fun _ =>
        (keeps_modifySocket (framesKept_readSetEvent _)).bind fun _ => keeps_onWriteReady hd
    · refine (keeps_modifySocket (g := started) framesKept_started).bind fun _ =>
        (keeps_modifySocket fun s => ?_).bind fun _ => keeps_connected hd
      exact ⟨rfl, rfl, id, fun _ => id⟩

theorem keeps_onWrite (hd : DelegateKeeps p d) : Keeps p (onWrite env d) :=
  keeps_getSocket.bind fun _ => (Preserves.when _ fun _ => keeps_onConnectEvent hd).bind fun _ =>
    keeps_onWriteReady hd

theorem keeps_onRead (hd : DelegateKeeps p d) : Keeps p (onRead env d) := by
  refine keeps_getSocket.bind fun _ => .ite _ (fun _ => keeps_modifySocket fun s => ?_) fun _ =>
    (Preserves.when _ fun _ => keeps_onReadEvent hd).bind fun _ =>
      keeps_getSocket.bind fun _ => .when _ fun _ =>
        (Preserves.when _ fun _ => keeps_onSslHandshakeEvent hd).bind fun _ =>
          keeps_getSocket.bind fun _ => (Preserves.when _ fun _ =>
            keeps_onSslSentShutdownEvent hd.preserves.error).bind fun _ =>
              keeps_getSocket.bind fun _ => .when _ fun _ => keeps_onWriteEvent hd
  exact ⟨rfl, rfl, id, fun _ => id⟩

theorem keeps_enableSsl (r : SslNew) : Keeps p (enableSsl (π := π) r) := by
  refine keeps_getSocket.bind fun s => .ite _ (fun _ => preserves_pure _) fun _ =>
    (keeps_modifySocket fun s => ?_).bind fun _ => .ite _ (fun _ => preserves_pure _) fun _ =>
      (keeps_modifySocket (framesKept_writeSetEvent _)).bind fun _ =>
        (keeps_modifySocket (framesKept_readSetEvent _)).bind fun _ =>
          (keeps_modifySocket (framesKept_readUnsetEvent _)).bind fun _ =>
            (keeps_modifySocket fun s => ?_).bind fun _ => preserves_pure _
  all_goals exact ⟨rfl, rfl, id, fun _ => id⟩

theorem keeps_cntlCode (hd : DelegateKeeps p d) (c : Cntl) : Keeps p (cntlCode env d c) := by
  cases c with
  | READ_START =>
    exact (keeps_modifySocket (framesKept_readSetEvent _)).bind fun _ => preserves_pure _
  | READ_STOP =>
    exact (keeps_modifySocket (framesKept_readUnsetEvent _)).bind fun _ => preserves_pure _
  | READ_PAUSE => exact keeps_cntlReadPause true
  | READ_RESUME => exact keeps_cntlReadPause false
  | WRITE_START =>
    exact (keeps_modifySocket (framesKept_writeSetEvent _)).bind fun _ => preserves_pure _
  | WRITE_STOP =>
    exact (keeps_modifySocket (framesKept_writeUnsetEvent _)).bind fun _ => preserves_pure _
  | WRITE_SHUTDOWN => exact keeps_cntlWriteShutdown hd
  | ABORT => exact keeps_cntlAbort hd

end Functions

section Runs

variable {p : Prop} {env env' : Env} {d : Delegate π} {allow allow' : World Stream π → Event → Prop}
  [∀ w e, Decidable (allow w e)] [∀ w e, Decidable (allow' w e)]

theorem keeps_call (hd : DelegateKeeps p d) (ha : p → ∀ w e, allow w e → ¬e.MakesEndOfStream)
    (c : Call) : Keeps p (c.exec env d allow) := by
  refine preserves_get_bind fun w h => ?_
  rw [wp_when]
  refine ⟨?_, fun _ => ⟨h, trivial⟩⟩
  rintro ⟨hperm, hallow⟩
  have hmakes : p → ¬(Event.call c).MakesEndOfStream := fun hp => ha hp w _ hallow
  cases c with
  | write f =>
    rw [Call.perform, wp_bind]
    exact wp_mono (write_wp hd (h.inHand hperm) hperm fun _ => h) fun _ _ h' => ⟨h', trivial⟩
  | cntl codes =>
    exact ((cntlCodes_preserves fun c _ => keeps_cntlCode hd c).bind fun _ => preserves_pure _) w h
  | enableSsl r => exact ((keeps_enableSsl r).bind fun _ => preserves_pure _) w h
  | setPartial b => exact ⟨h.beside ⟨rfl, rfl, id, fun _ => id⟩, trivial⟩
  | borrow type =>
    rw [Call.perform, wp_bind]
    refine wp_mono (poolBorrow_wp env.toContext _ _ _ h) fun r w' h' => ?_
    cases r with
    | none => exact ⟨h', trivial⟩
    | some f =>
      obtain ⟨h', -, ht, -⟩ := h'
      exact ⟨h'.settle fun hp _ => ht ▸ hmakes hp, trivial⟩
  | frameReturn f =>
    exact wp_mono (frameReturn_wp env.toContext (h.inHand hperm) hperm) fun _ _ h' => ⟨h', trivial⟩
  | fill f type vecs vecPosition data =>
    obtain ⟨q, h⟩ := h
    have ho : w.owner f = .user := hperm.1
    rw [Call.perform, wp_bind, wp_getFrame, wp_setFrame]
    exact ⟨⟨q, h.setFrame (by simp [ho]) fun hp _ _ _ => hmakes hp⟩, trivial⟩

theorem keeps_event (hd : DelegateKeeps p d) (ha : p → ∀ w e, allow w e → ¬e.MakesEndOfStream)
    (e : Event) : Keeps p (e.exec env d allow) := by
  cases e with
  | call c => exact keeps_call hd ha c
  | read => exact preserves_get_bind fun w h => Preserves.when _ (fun _ => keeps_onRead hd) w h
  | write => exact preserves_get_bind fun w h => Preserves.when _ (fun _ => keeps_onWrite hd) w h
  | error =>
    refine preserves_get_bind fun w h => Preserves.when _ (fun _ =>
      (keeps_modifySocket fun s => ?_).bind fun _ => keeps_error hd.preserves.error _ 0) w h
    exact ⟨rfl, rfl, id, fun _ => id⟩

theorem scripted_keeps (script : Script)
    (ha : p → ∀ w e, allow w e → ¬e.MakesEndOfStream) (hr : p → script.frameReturn = none)
    (n : ℕ) : DelegateKeeps p (scripted (π := π) env allow script n) := by
  have hdelegate : ∀ {calls : List Call → StreamM π Unit}, (∀ cs, Keeps p (calls cs)) →
      DelegateKeeps p (script.delegate calls) := by
    intro calls hcalls
    refine ⟨script.answersOwn calls, Script.delegate_preserves
      (fun w h => keeps_ask (fun _ => ()) w h) (fun w f data vecs vecPosition h _ => ?_) hcalls,
      fun hp => by simp [Script.delegate, hr hp]⟩
    exact ⟨h.setVecs ⟨rfl, rfl, rfl, rfl⟩, trivial⟩
  refine hdelegate ?_
  induction n with
  | zero => exact fun _ => preserves_pure _
  | succ n ih => exact fun cs => preserves_forM fun c _ => keeps_call (hdelegate ih) ha c

theorem run_tracked (script : Script) (ha : p → ∀ w e, allow w e → ¬e.MakesEndOfStream)
    (ha' : p → ∀ w e, allow' w e → ¬e.MakesEndOfStream) (hr : p → script.frameReturn = none)
    (n : ℕ) (o : Opening) (proto : π) (data : FrameId → ℕ → UInt8) (events : List Event) :
    wp (fun _ => True) (run env (scripted env' allow' script n) allow events) (fun _ => Inv p)
      (World.init (opened o) proto data) := by
  have hd : DelegateKeeps p (scripted (π := π) env' allow' script n) :=
    scripted_keeps script ha' hr n
  refine wp_mono (preserves_forM (fun e _ => keeps_event hd ha e) _ (inv_init o proto data)) ?_
  exact fun _ _ h => h.1

/-- In every run, of a plain stream or with TLS, the frames in the write queue are the writer's, and
the read frame is none of them. -/
theorem run_custody (script : Script) (n : ℕ) (o : Opening) (proto : π)
    (data : FrameId → ℕ → UInt8) (events : List Event) :
    wp (fun _ => True) (run env (scripted env' allow' script n) allow events)
      (fun _ w => ∃ q, Custody w q) (World.init (opened o) proto data) :=
  wp_mono (run_tracked (p := False) script False.elim False.elim False.elim n o proto data events)
    fun _ _ ⟨q, h⟩ => ⟨q, h.toCustody⟩

/-- Before reading ends the delegate is given no end-of-stream frame, if users make none and frames
that were sent do not come back to them. -/
theorem run_behind (script : Script) (n : ℕ) (o : Opening) (proto : π)
    (data : FrameId → ℕ → UInt8) (events : List Event) :
    wp (fun _ => True) (run env (scripted env' allow' script n) allow events) (fun _ w =>
      (∀ w e, allow w e → ¬e.MakesEndOfStream) → (∀ w e, allow' w e → ¬e.MakesEndOfStream) →
        script.frameReturn = none →
          ∀ pre f post, w.trace = pre ++ .offer f .endOfStream :: post → ends pre ≠ [])
      (World.init (opened o) proto data) := by
  let p : Prop := (∀ w e, allow w e → ¬e.MakesEndOfStream) ∧
    (∀ w e, allow' w e → ¬e.MakesEndOfStream) ∧ script.frameReturn = none
  refine wp_mono (run_tracked (p := p) script (fun hp => hp.1) (fun hp => hp.2.1)
    (fun hp => hp.2.2) n o proto data events) ?_
  rintro _ w ⟨q, h⟩ ha ha' hr
  exact h.behind ⟨ha, ha', hr⟩

end Runs

end EndFrames

end Stream

end FrameTransporter
