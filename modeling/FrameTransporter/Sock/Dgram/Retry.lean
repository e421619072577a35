import FrameTransporter.Sock.Dgram.Run

/-! # Datagrams that have to wait

When the system takes no data, the frame at the front of the write queue is tried
again, from a later write event or in the next round of a flush. Each attempt
should find the frame as the first one did. The message control block is taken
off the frame before `sendmsg` and not put back, so only frames without one can
wait for long.
-/

namespace FrameTransporter

open Hoare Intrusive

/-- The system took nothing, and the send is worth another try. -/
def SendmsgResult.Retryable : SendmsgResult → Prop
  | .sent n => n = 0
  | .failed e => e.Retryable

/-- The payload vector and the control vector that `sendmsg` gets from a frame. -/
def Frame.message (x : Frame) : Option Vec × Option Vec :=
  (x.vecs[x.vecPosition]?, if x.msgControl then x.vecs.getLast? else none)

/-- The frame has a payload to send, so the write loop comes to `sendmsg`. -/
def Frame.HasPayload (x : Frame) : Prop :=
  ∃ v, x.getVec = .ok (some v) ∧ toSize (v.limit - v.position) ≠ 0

namespace Dgram

open ReadEvent WriteEvent

variable {π : Type}

/-- What leads to an attempt: a write event, or a round of `ft_dgram_flush`. -/
inductive Attempt
  | event
  | flush

def Attempt.exec (env : Env) (d : Delegate π) : Attempt → DgramM π Unit
  | event => onWriteEvent env d
  | flush => do
    modifySocket fun s => { s with writeReady := true }
    writeReal env d

/-- Attempts one after the other. The result lists what each of them passes to `sendmsg`. -/
def attempts (env : Env) (d : Delegate π) (f : FrameId) :
    List Attempt → DgramM π (List (Option Vec × Option Vec))
  | [] => return []
  | a :: as => do
    let x ← getFrame f
    a.exec env d
    let messages ← attempts env d f as
    return x.message :: messages

/-- The attempts return, leave the frame as it is and all pass the same vectors. -/
def Intact (env : Env) (d : Delegate π) (f : FrameId) (as : List Attempt) (w : World Dgram π) :
    Prop :=
  wp (fun _ => False) (attempts env d f as) (fun messages w' => w'.heap f = w.heap f ∧
    ∀ m ∈ messages, m = (w.heap f).message) w

/-- A data frame is at the front of the write queue. -/
structure Front (f : FrameId) (w : World Dgram π) : Prop where
  front : w.socket.writeFrames = some f
  data : (w.heap f).type ≠ .endOfStream

/-- From now on the system takes nothing. -/
def Full (env : Env) (w : World Dgram π) : Prop :=
  ∀ k, w.clock ≤ k → ∀ s x, (env.sendmsg s x k).Retryable

/-- An attempt takes the message control block off the frame. -/
structure Attempted (f : FrameId) (w w' : World Dgram π) : Prop where
  front : w'.socket.writeFrames = some f
  frame : w'.heap f = (w.heap f).withoutControl
  clock : w.clock ≤ w'.clock

section Retryable

variable {env : Env} {d : Delegate π} {f : FrameId} {w w' : World Dgram π} {E : Fault → Prop}
  {x : Frame}

theorem withoutControl_of_not (h : x.msgControl = false) : x.withoutControl = x := by
  simp [Frame.withoutControl, h]

@[simp] theorem withoutControl_type : x.withoutControl.type = x.type := by
  unfold Frame.withoutControl
  split <;> rfl

theorem withoutControl_length_le : x.withoutControl.vecs.length ≤ x.vecs.length := by
  unfold Frame.withoutControl
  split
  · simp
  · exact le_rfl

/-- A frame with a control block loses a vector. -/
theorem withoutControl_length_lt (hc : x.msgControl = true) (hx : x.HasPayload) :
    x.withoutControl.vecs.length < x.vecs.length := by
  obtain ⟨v, hv, -⟩ := hx
  have hne : x.vecs ≠ [] := by
    intro hn
    rw [Frame.getVec, hn] at hv
    split at hv
    · cases hv
    · split at hv <;> cases hv
  have hpos : 0 < x.vecs.length := List.length_pos_iff.mpr hne
  rw [Frame.withoutControl, if_pos ⟨hc, hne⟩]
  simp only [List.length_dropLast]
  omega

theorem Attempted.front_again (h : Attempted f w w') (hf : Front f w) : Front f w' := by
  refine ⟨h.front, ?_⟩
  rw [h.frame, withoutControl_type]
  exact hf.data

theorem Attempted.full (h : Attempted f w w') (hs : Full env w) : Full env w' :=
  fun k hk => hs k (h.clock.trans hk)

/-- A send that the system does not take leaves the frame alone. -/
theorem transmit_retryable {bytes : List UInt8} (hb : bytes ≠ [])
    (hs : ∀ s, (env.sendmsg s x w.clock).Retryable) :
    wp E (transmit env d f x bytes) (fun r w' => r = none ∧ w'.heap = w.heap ∧
      w'.socket.writeFrames = w.socket.writeFrames ∧ w.clock ≤ w'.clock) w := by
  have hlen : bytes.length ≠ 0 := fun hl => hb (List.length_eq_zero_iff.mp hl)
  have ht := hs w.socket
  rw [transmit, wp_bind, wp_getSocket, wp_bind, wp_ask]
  cases hr : env.sendmsg w.socket x w.clock with
  | failed e =>
    rw [hr] at ht
    have he : e.Retryable := ht
    dsimp only
    rw [wp_bind, wp_record, wp_bind, sendFailed, wp_bind, wp_modifySocket, wp_bind, wp_getSocket,
      wp_ite]
    refine ⟨fun _ => ?_, fun hc => absurd he hc⟩
    rw [wp_modifySocket, wp_pure, writeSetEvent_eq]
    exact ⟨rfl, rfl, rfl, Nat.le_succ _⟩
  | sent n =>
    rw [hr] at ht
    obtain rfl : n = 0 := ht
    dsimp only
    rw [wp_bind, wp_record, wp_ite]
    refine ⟨fun _ => ?_, fun hc => absurd (Nat.zero_min _) hc⟩
    rw [wp_bind, wp_modifySocket, wp_pure, awaitWrite, writeSetEvent_eq]
    exact ⟨rfl, rfl, rfl, Nat.le_succ _⟩

/-- An attempt that the system does not take ends after one round. Without a payload it does not
come that far. -/
theorem writeReal_attempted (h : Front f w) (hs : Full env w) (hr : w.socket.writeReady = true)
    (hE : (w.heap f).HasPayload ∨ ∀ e, E e) :
    wp E (writeReal env d) (fun _ w' => (w.heap f).HasPayload ∧ Attempted f w w') w := by
  rw [writeReal, wp_bind, wp_getSocket, wp_ite]
  refine ⟨fun hn => by simp [hr] at hn, fun _ => ?_⟩
  rw [writeLoop, wp_bind, wp_getSocket, h.front]
  dsimp only
  rw [wp_bind, wp_getFrame, wp_ite]
  refine ⟨fun ht => absurd ht h.data, fun _ => ?_⟩
  rw [wp_bind, writeVec, wp_bind, wp_getFrame, wp_bind]
  cases hv : (w.heap f).getVec with
  | error e =>
    rw [wp_liftM_error]
    refine hE.elim ?_ fun hE => hE _
    rintro ⟨v, hv', -⟩
    simp [hv] at hv'
  | ok r =>
    rw [wp_liftM_ok]
    cases r with
    | none =>
      refine hE.elim ?_ fun hE => hE _
      rintro ⟨v, hv', -⟩
      simp [hv] at hv'
    | some v =>
      dsimp only
      rw [wp_ite]
      constructor
      · intro hz
        refine hE.elim ?_ fun hE => hE _
        rintro ⟨v', hv', hne⟩
        rw [hv] at hv'
        cases hv'
        exact absurd hz hne
      · intro hne
        rw [wp_bind, wp_setFrame, wp_bind]
        have hb : slice (w.heap f).data (v.offset + v.position)
            (toSize (v.limit - v.position)) ≠ [] := by
          intro hn
          have hl := congrArg List.length hn
          simp at hl
          exact hne hl
        refine wp_mono (transmit_retryable hb fun s => hs _ le_rfl s _) ?_
        rintro _ w' ⟨rfl, hheap, hfront, hclock⟩
        dsimp only
        rw [wp_pure]
        simp only [Bool.false_eq_true, if_false, wp_pure]
        refine ⟨⟨v, hv, hne⟩, hfront.trans h.front, ?_, hclock⟩
        rw [hheap, World.setFrame_heap, Function.update_self]

theorem exec_attempted (a : Attempt) (h : Front f w) (hs : Full env w)
    (hE : (w.heap f).HasPayload ∨ ∀ e, E e) :
    wp E (a.exec env d) (fun _ w' => (w.heap f).HasPayload ∧ Attempted f w w') w := by
  cases a with
  | flush =>
    rw [Attempt.exec, wp_bind, wp_modifySocket]
    refine wp_mono (writeReal_attempted ⟨h.front, h.data⟩ hs rfl hE) ?_
    rintro _ w' ⟨hp, h'⟩
    exact ⟨hp, h'.front, h'.frame, h'.clock⟩
  | event =>
    rw [Attempt.exec, onWriteEvent, wp_bind, wp_modifySocket, wp_bind, wp_getSocket, wp_ite]
    refine ⟨fun _ => ?_, fun hn => absurd (h.front.symm.trans (not_not.mp hn)) (by simp)⟩
    rw [wp_bind, wp_modifySocket, wp_bind]
    refine wp_mono (writeReal_attempted ⟨h.front, h.data⟩ hs rfl hE) ?_
    rintro _ w' ⟨hp, h'⟩
    rw [wp_bind, wp_getSocket, wp_when]
    refine ⟨fun _ => ?_, fun _ => ⟨hp, h'.front, h'.frame, h'.clock⟩⟩
    rw [wp_modifySocket, writeUnsetEvent_eq]
    exact ⟨hp, h'.front, h'.frame, h'.clock⟩

/-- A frame without a message control block waits unharmed. -/
theorem attempts_intact (h : Front f w) (hs : Full env w) (hp : (w.heap f).HasPayload)
    (hc : (w.heap f).msgControl = false) (as : List Attempt) : Intact env d f as w := by
  induction as generalizing w with
  | nil => exact ⟨rfl, by simp⟩
  | cons a as ih =>
    rw [Intact, attempts, wp_bind, wp_getFrame, wp_bind]
    refine wp_mono (exec_attempted a h hs (Or.inl hp)) ?_
    rintro _ w' ⟨_, h'⟩
    have hframe : w'.heap f = w.heap f := h'.frame.trans (withoutControl_of_not hc)
    rw [wp_bind]
    refine wp_mono (ih (h'.front_again h) (h'.full hs) (hframe ▸ hp) (hframe ▸ hc)) ?_
    rintro messages w'' ⟨hsame, hmessages⟩
    rw [wp_pure]
    refine ⟨hsame.trans hframe, ?_⟩
    rw [hframe] at hmessages
    simpa using hmessages

/-- No attempt puts a vector back. -/
theorem attempts_length_le (h : Front f w) (hs : Full env w) (as : List Attempt) :
    wp (fun _ => True) (attempts env d f as)
      (fun _ w' => (w'.heap f).vecs.length ≤ (w.heap f).vecs.length) w := by
  induction as generalizing w with
  | nil => exact le_rfl
  | cons a as ih =>
    rw [attempts, wp_bind, wp_getFrame, wp_bind]
    refine wp_mono (exec_attempted a h hs (Or.inr fun _ => trivial)) ?_
    rintro _ w' ⟨_, h'⟩
    rw [wp_bind]
    refine wp_mono (ih (h'.front_again h) (h'.full hs)) fun _ w'' hle => ?_
    rw [wp_pure]
    rw [h'.frame] at hle
    exact hle.trans withoutControl_length_le

/-- A frame survives the attempts that the system does not take exactly when it has no message
control block. -/
theorem intact_iff {as : List Attempt} (h : Front f w) (hp : (w.heap f).HasPayload)
    (hs : Full env w) (has : as ≠ []) :
    Intact env d f as w ↔ (w.heap f).msgControl = false := by
  constructor
  · intro hi
    obtain ⟨a, as, rfl⟩ := List.exists_cons_of_ne_nil has
    by_contra hc
    rw [Bool.not_eq_false] at hc
    obtain ⟨messages, w', hrun, hsame, -⟩ := wp_returns hi
    have hless : wp (fun _ => True) (attempts env d f (a :: as))
        (fun _ w' => (w'.heap f).vecs.length < (w.heap f).vecs.length) w := by
      rw [attempts, wp_bind, wp_getFrame, wp_bind]
      refine wp_mono (exec_attempted a h hs (Or.inl hp)) ?_
      rintro _ w₁ ⟨_, h₁⟩
      rw [wp_bind]
      refine wp_mono (attempts_length_le (h₁.front_again h) (h₁.full hs) as) fun _ w₂ hle => ?_
      rw [wp_pure]
      rw [h₁.frame] at hle
      exact hle.trans_lt (withoutControl_length_lt hc hp)
    have hlt := wp_ok hless hrun
    rw [hsame] at hlt
    exact absurd hlt (lt_irrefl _)
  · intro hc
    exact attempts_intact h hs hp hc as

end Retryable

section Examples

-- the run below a closed precondition is evaluated by the kernel alone
attribute [local irreducible] wp

/-- A socket with a queued frame of a payload and a control vector. -/
def waiting (msgControl : Bool) : World Dgram Unit :=
  queued ((World.init init () fun _ _ => 0).setFrame ⟨0, 0⟩
    { Pool.resetFrame (Pool.frameInit none) .rawData "application" 1 with
      vecs := [⟨0, 0, 3, 3⟩, ⟨3, 0, 12, 12⟩], msgControl }) ⟨0, 0⟩

theorem front_waiting (msgControl : Bool) : Front ⟨0, 0⟩ (waiting msgControl) := ⟨rfl, by rintro ⟨⟩⟩

theorem hasPayload_waiting (msgControl : Bool) :
    ((waiting msgControl).heap ⟨0, 0⟩).HasPayload := ⟨⟨0, 0, 3, 3⟩, rfl, by decide⟩

theorem full_idleEnv (w : World Dgram π) : Full idleEnv w := fun _ _ _ _ => Or.inl rfl

theorem intact_iff_two :
    Intact (π := Unit) idleEnv (scripted idleEnv (fun _ _ => True) idleScript 0)
    ⟨0, 0⟩ [.event, .flush] (waiting false) :=
  (intact_iff (front_waiting false) (hasPayload_waiting false) (full_idleEnv _) (by simp)).mpr rfl

/-- Two attempts take both vectors off the frame, and the third finds no payload. -/
theorem not_intact_all : ¬∀ (env : Env) (d : Delegate Unit) (f : FrameId) (as : List Attempt)
    (w : World Dgram Unit), Front f w → (w.heap f).HasPayload → Full env w →
    Intact env d f as w := by
  intro h
  have h := h idleEnv (scripted idleEnv (fun _ _ => True) idleScript 0) ⟨0, 0⟩
    [.event, .event, .event] (waiting true) (front_waiting true) (hasPayload_waiting true)
    (full_idleEnv _)
  exact wp_fault (e := .abort .frameDvec) h (by decide +kernel)

end Examples

end Dgram

end FrameTransporter
