import FrameTransporter.Sock.Dgram.Retry
import FrameTransporter.Sock.Dgram.Sending

/-! # When a flush comes to its end

A flush runs the write loop until the queue is empty. Each attempt of a socket that
is not connected takes bytes, gives a frame up or uses one of the retryable answers,
so there are finitely many. A connected socket keeps the frame at which an error
occurred, and tries it again. With errors that go on forever it makes no end.
-/

namespace FrameTransporter

open Hoare Intrusive

namespace Dgram

variable {π : Type}

/-- From some question on, the system does not ask for another try, and a send that fails then
fails with one of the errors. -/
def FailsOnlyWith (errors : Set Errno) (env : Env) (k : ℕ) : Prop :=
  ∀ c, k ≤ c → ∀ s x, ¬(env.sendmsg s x c).Retryable ∧
    ∀ e, env.sendmsg s x c = .failed e → e ∈ errors

/-- Time passes, and the queue is as before. -/
structure Lingers (q : List FrameId) (w w' : World Dgram π) : Prop where
  connect : w'.socket.connect = w.socket.connect
  clock : w.clock ≤ w'.clock
  heap : ∀ f ∈ q, w'.heap f = w.heap f

/-- The error callback leaves the queue as it is. -/
def Delegate.SparesQueue (d : Delegate π) : Prop :=
  ∀ q w, Holds w q → wp (fun _ => False) d.error (fun _ w' => Holds w' q ∧ Lingers q w w') w

/-- Whatever the system answers, if it asks for another try finitely often and sends do not fail
forever but with the errors, a flush ends with an empty write queue. The delegate keeps its hands
off the frames of the socket and does not fail. -/
def Flushes (errors : Set Errno) (w : World Dgram π) : Prop :=
  ∀ (env : Env) (d : Delegate π), FrameDelegate (fun _ => False) d → d.read ≠ none →
    (w.socket.connect = true → d.SparesQueue) → (∃ k, FailsOnlyWith errors env k) →
      ∃ n, wp (fun _ => False) (flush env d n)
        (fun done w' => done = true ∧ w'.socket.writeFrames = none) w

/-- The data frames can be sent, and the socket is not connected or none of the errors is
permanent. -/
def Flushable (errors : Set Errno) (w : World Dgram π) (q : List FrameId) : Prop :=
  ∀ f ∈ q, (w.heap f).type ≠ .endOfStream →
    (w.heap f).Sendable ∧ (w.socket.connect = true → ∀ e ∈ errors, e.Retryable)

section Ends

variable {env : Env} {d : Delegate π} {w : World Dgram π} {f : FrameId} {q : List FrameId}
  {k t : ℕ} {errors : Set Errno}

/-- The attempts that a flush has left at most: one for each byte, frame and retryable answer. -/
def attemptsLeft (k : ℕ) (w : World Dgram π) (q : List FrameId) : ℕ :=
  (k - w.clock) + (q.map fun f => (w.heap f).pendingBytes.length + 1).sum

/-- The socket is to be flushed with at most the given number of attempts. -/
def Flushing (errors : Set Errno) (d : Delegate π) (k t : ℕ) (w : World Dgram π) : Prop :=
  ∃ q, Holds w q ∧ Flushable errors w q ∧ attemptsLeft k w q ≤ t ∧
    (w.socket.connect = true → d.SparesQueue)

theorem Flushing.mono {t' : ℕ} (h : Flushing errors d k t w) (ht : t ≤ t') :
    Flushing errors d k t' w :=
  h.imp fun _ ⟨h, hf, hm, hd⟩ => ⟨h, hf, hm.trans ht, hd⟩

/-- Changes beside the frames keep a flush going. -/
theorem Flushing.of_same {w' : World Dgram π} (h : Flushing errors d k t w)
    (hh : ∀ q, Holds w q → Holds w' q) (hheap : w'.heap = w.heap)
    (hc : w'.socket.connect = w.socket.connect) (hclock : w.clock ≤ w'.clock) :
    Flushing errors d k t w' := by
  obtain ⟨q, h, hf, hm, hd⟩ := h
  refine ⟨q, hh q h, ?_, ?_, hc ▸ hd⟩
  · intro f hq
    rw [hheap, hc]
    exact hf f hq
  · simp only [attemptsLeft, hheap] at *
    omega

theorem Holds.frontReturned (h : Holds w (f :: q)) : Holds (frontReturned env w f) q :=
  (h.dequeue _ fun _ => rfl).returned env.toContext

theorem Flushing.exists_cons (h : Flushing errors d k t w) (hf : w.socket.writeFrames = some f) :
    ∃ q, Holds w (f :: q) ∧ Flushable errors w (f :: q) ∧ attemptsLeft k w (f :: q) ≤ t ∧
      (w.socket.connect = true → d.SparesQueue) := by
  obtain ⟨q, h, hflush, hm, hd⟩ := h
  obtain ⟨q, rfl, -⟩ := (hf ▸ h.chain).exists_cons
  exact ⟨q, h, hflush, hm, hd⟩

theorem Flushing.awaitWrite (h : Flushing errors d k t w) :
    Flushing errors d k t (w.setSocket (awaitWrite w.socket)) :=
  h.of_same (fun _ hq => hq.setSocket (beside_awaitWrite _)) rfl (connect_awaitWrite _) le_rfl

variable (hd : FrameDelegate (fun _ => False) d) (hread : d.read ≠ none)
  (hk : FailsOnlyWith errors env k)

include hd hread hk

end Ends

section Endless

variable {env : Env} {d : Delegate π} {w : World Dgram π} {f : FrameId} {q : List FrameId}
  {v : Vec} {rest : List Vec} {k : ℕ} {errors : Set Errno}

/-- An end-of-stream frame at the front is the only frame. -/
theorem Holds.eq_nil (h : Holds w (f :: q)) (ht : (w.heap f).type = .endOfStream) : q = [] := by
  obtain ⟨-, pre, hpre⟩ := h.closed f (by simp) ht
  cases pre with
  | nil => simpa using hpre
  | cons a pre =>
    have hm : f ∈ q := by simp [(List.cons.inj hpre).2]
    exact absurd hm h.head_not_mem

/-- A delegate that takes every frame and does nothing else. -/
def idle : Delegate π where
  getReadFrame := none
  read := some fun _ => pure true
  fini := pure ()
  error := pure ()

theorem frameDelegate_idle {E : Fault → Prop} : FrameDelegate E (idle (π := π)) where
  preserves := by
    refine ⟨by rintro _ ⟨⟩, fun g hg f => ?_, preserves_pure _, preserves_pure _⟩
    obtain rfl := Option.some.inj hg
    exact preserves_pure _
  owns := by
    refine ⟨by rintro _ ⟨⟩, fun g hg f w _ => ?_⟩
    obtain rfl := Option.some.inj hg
    exact fun h => absurd h (by simp)

theorem sparesQueue_idle : (idle (π := π)).SparesQueue :=
  fun _ _ h => ⟨h, rfl, le_rfl, fun _ _ => rfl⟩

/-- A socket whose flush makes no end for one system does not flush. -/
theorem Flushes.absurd (h : Flushes errors w) (hk : FailsOnlyWith errors env k)
    (hn : ∀ n, wp (fun _ => True) (flush env idle n) (fun done _ => done = false) w) : False := by
  obtain ⟨n, hdone⟩ :=
    h env idle frameDelegate_idle (by rintro ⟨⟩) (fun _ => sparesQueue_idle) ⟨k, hk⟩
  obtain ⟨done, w', hm, hd, -⟩ := wp_returns hdone
  have hno := wp_ok (hn n) hm
  rw [hd] at hno
  simp at hno

/-- The attempts that take a vector of a listed frame away, or the frame. -/
def vecsLeft (w : World Dgram π) (q : List FrameId) : ℕ :=
  (q.map fun f => (w.heap f).vecs.length - (w.heap f).vecPosition + 1).sum

/-- A data frame that cannot be sent is in the queue, and there is time enough to come to it. -/
structure Barred (K : ℕ) (w : World Dgram π) (q : List FrameId) : Prop where
  holds : Holds w q
  frame : ∃ f ∈ q, (w.heap f).type ≠ .endOfStream ∧ ¬(w.heap f).Sendable
  time : w.clock + 2 * vecsLeft w q ≤ K

theorem vecsLeft_cons : vecsLeft w (f :: q) =
    (w.heap f).vecs.length - (w.heap f).vecPosition + 1 + vecsLeft w q := by
  simp [vecsLeft]

theorem vecsLeft_congr {w' : World Dgram π} (hrest : ∀ g ∈ q, w'.heap g = w.heap g) :
    vecsLeft w' q = vecsLeft w q :=
  congrArg List.sum (List.map_congr_left fun g hg => by rw [hrest g hg])

/-- The front frame left the queue, and it was none of those that cannot be sent. -/
theorem Barred.returned {K : ℕ} {w' : World Dgram π} (h : Barred K w (f :: q))
    (h' : Holds w' q) (hclock : w'.clock ≤ w.clock + 2) (hrest : ∀ g ∈ q, w'.heap g = w.heap g)
    (hs : (w.heap f).Sendable) : Barred K w' q := by
  refine ⟨h', ?_, ?_⟩
  · obtain ⟨g, hg, ht, hn⟩ := h.frame
    rcases List.mem_cons.mp hg with rfl | hm
    · exact absurd hs hn
    · exact ⟨g, hm, by rwa [hrest g hm], by rwa [hrest g hm]⟩
  · have htime := h.time
    rw [vecsLeft_cons] at htime
    rw [vecsLeft_congr hrest]
    omega

end Endless

section Examples

/-- A socket with a queued frame of three bytes, connected or not. -/
def loaded (connect : Bool) : World Dgram Unit :=
  queued ((((World.init init () fun _ _ => 0).setSocket { init with connect }).setFrame ⟨0, 0⟩
    { Pool.resetFrame (Pool.frameInit none) .rawData "application" 1 with
      vecs := [⟨0, 0, 3, 3⟩] }).setOwner ⟨0, 0⟩ .user) ⟨0, 0⟩

end Examples

end Dgram

end FrameTransporter
