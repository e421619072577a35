import FrameTransporter.Log.Syslog

/-! # The syslog backend keeps every record

In a run of the backend, each record is printed to the emergency stream or its text is
in the stream of bytes that the socket sent, that wait in its queue, or that the
pending frame holds. A frame that is handed to a socket which was shut down is the
exception, and so is the preparation of a frame when the pool has none. A record in
the static variable of `_ft_log_v` is lost to a message that is logged before it is
printed. What the socket logs in its own events is left out.
-/

namespace FrameTransporter

open Hoare Intrusive

namespace Syslog

/-- The entry points of the backend, and the events of its socket. A record comes from `_ft_log_v`,
or its caller keeps it. -/
inductive Event
  | process (le : LogRecord) (shared : Bool) (length : ℤ)
  | prepare
  | flush (rounds : ℕ)
  | write
  | error

/-- Where the record of an event is. -/
def recordPtr (le : LogRecord) (shared : Bool) : RecordPtr := if shared then .static else .caller le

section Runs

variable (env : Env)

/-- An event. Two rounds are enough for a record that fits a frame, and the result tells whether
the call with a record returned. -/
def Event.exec : Event → DgramM Syslog Bool
  | .process le shared length => do
    when (shared = true) do setSyslog { ← getSyslog with le := le }
    Syslog.process env 2 (recordPtr le shared) length
  | .prepare => do
    onPrepare env
    return true
  | .flush rounds => do
    let _ ← Syslog.flush env rounds
    return true
  | .write => do
    let s ← getSocket
    when (s.writeWatcher = true) <| Dgram.onWrite env.toEnv delegate
    return true
  | .error => do
    let s ← getSocket
    when (s.writeWatcher = true) do
      modifySocket fun s => { s with readWatcher := false, writeWatcher := false }
      Dgram.onError env.toEnv delegate
    return true

/-- A run, which stops when a call does not return. -/
def run : List Event → DgramM Syslog Bool
  | [] => return true
  | e :: events => do
    let done ← e.exec env
    if done = true then run events else return false

/-- If the pending frame has records, no message is logged when it is sent now. So the socket is
open, and the pool gives a frame if it is asked. -/
def Silent (w : World Dgram Syslog) (alloc : Bool) : Prop :=
  ∀ f, w.proto.frame = some f → (w.heap f).vecs ≠ [] → sendMessages env w f alloc = []

/-- Before an event with a record, the record fits an empty frame. The pending frame has room for
it, or no message takes its place and a frame with records can be sent. Beside it, no message is
logged when a frame is prepared or sent. -/
def Event.Meets (w : World Dgram Syslog) : Event → Prop
  | .process le shared length =>
    Fits le length ∧ (w.socket.writeOpen = true ∨ HasRoom (recordSize le length) w) ∧
      ((w.proto.frame ≠ none ∧ HasRoom (recordSize le length) w) ∨
        Spared env (recordPtr le shared) w)
  | .prepare => (w.proto.frame = none → borrowMessages env w = []) ∧ Silent env w true
  | .flush _ => Silent env w false
  | .write | .error => True

/-- Every event of the run meets the condition in the state before it. -/
def Meets : List Event → World Dgram Syslog → Prop
  | [], _ => True
  | e :: events, w =>
    e.Meets env w ∧ ∀ done w', e.exec env w = .ok (done, w') → Meets events w'

/-- The records that were passed to the backend. -/
def records (events : List Event) : List (LogRecord × ℤ) :=
  events.filterMap fun
    | .process le _ length => some (le, length)
    | _ => none

/-- Each record is one of the printed records or one of the texts, in order. -/
inductive Fates : List (LogRecord × ℤ) → List (LogRecord × ℤ) → List (List UInt8) → Prop
  | nil : Fates [] [] []
  | printed {rs es : List (LogRecord × ℤ)} {ts : List (List UInt8)}
      {le : LogRecord} {length : ℤ} :
      Fates rs es ts → Fates (rs ++ [(le, length)]) (es ++ [(le, length)]) ts
  | placed {rs es : List (LogRecord × ℤ)} {ts : List (List UInt8)}
      {le : LogRecord} {length : ℤ} {text : List UInt8} :
      Stored env le (recordSize le length) text → Fates rs es ts →
      Fates (rs ++ [(le, length)]) es (ts ++ [text])

/-- Each record was printed, or its text is in what was sent, what waits in the write queue and what
the pending frame holds, in order. -/
def Delivered (rs : List (LogRecord × ℤ)) (w : World Dgram Syslog) : Prop :=
  ∃ ts q, Fates env rs w.proto.emergency ts ∧ Chain w.next w.socket.writeFrames q ∧
    Stream.sentBytes w.trace ++ q.flatMap (fun f => (w.heap f).pendingBytes) ++ pendingText w =
      ts.flatten

/-- The backend holds all that it was passed. -/
structure Keeping (rs : List (LogRecord × ℤ)) (w : World Dgram Syslog) : Prop extends
    Backend w where
  fates : ∃ ts, Fates env rs w.proto.emergency ts ∧ handed w = ts.flatten

end Runs

section Steps

variable {env : Env} {E : Fault → Prop} {w w' : World Dgram Syslog} {f : FrameId}
  {rs : List (LogRecord × ℤ)} {le : LogRecord} {length : ℤ} {shared : Bool}

theorem Keeping.delivered (h : Keeping env rs w) : Delivered env rs w := by
  obtain ⟨q, hq⟩ := h.sends
  obtain ⟨ts, hts, hbytes⟩ := h.fates
  exact ⟨ts, q, hts, hq.chain, by rw [hq.bytes, ← hbytes, handed]⟩

/-- Nothing is passed, printed or handed over. -/
theorem Keeping.same (h : Keeping env rs w) (hb : Backend w')
    (he : w'.proto.emergency = w.proto.emergency) (hh : handed w' = handed w) :
    Keeping env rs w' := by
  obtain ⟨ts, hts, hbytes⟩ := h.fates
  exact ⟨hb, ts, by rwa [he], hh.trans hbytes⟩

/-- A record that is settled has a fate. -/
theorem Keeping.settled (h : Keeping env rs w) (hb : Backend w')
    (hs : Settled env le length w.proto (handed w) w') :
    Keeping env (rs ++ [(le, length)]) w' := by
  obtain ⟨ts, hts, hbytes⟩ := h.fates
  refine ⟨hb, ?_⟩
  rcases hs with ⟨he, -, hh⟩ | ⟨he, -, f, v, text, -, -, -, hstored, hh⟩
  · exact ⟨ts, he ▸ hts.printed, hh.trans hbytes⟩
  · refine ⟨ts ++ [text], he ▸ hts.placed hstored, ?_⟩
    rw [hh, hbytes, List.flatten_append, List.flatten_singleton]

/-- What the socket does on its own keeps the pending frame and what was handed over. -/
theorem Backend.untouched (h : Backend w) (hs : Dgram.SendInv w') (l : Dgram.Untouched w w') :
    Backend w' ∧ w'.proto.emergency = w.proto.emergency ∧ handed w' = handed w := by
  have heap : ∀ f, w.proto.frame = some f → w'.owner f = .user ∧ w'.heap f = w.heap f :=
    fun f hf => l.user f (h.pending f hf).1
  have hpending : pendingText w' = pendingText w := by
    unfold pendingText
    rw [l.proto]
    cases hf : w.proto.frame with
    | none => rfl
    | some f => exact congrArg Frame.contents (heap f hf).2
  refine ⟨⟨hs, fun f => (l.capacity f).trans (h.capacity f), fun f hf => ?_⟩, by rw [l.proto], ?_⟩
  · rw [l.proto] at hf
    exact ⟨(heap f hf).1, (heap f hf).2 ▸ (h.pending f hf).2⟩
  · rw [handed, handed, hpending, l.accepted]

theorem keeping_untouched (h : Keeping env rs w) {m : DgramM Syslog Unit}
    (hm : Preserves E Dgram.SendInv Dgram.Untouched m) :
    wp E m (fun _ w' => Keeping env rs w') w :=
  wp_mono (hm w h.sends) fun _ _ ⟨hs, l⟩ =>
    have hu := h.toBackend.untouched hs l
    h.same hu.1 hu.2.1 hu.2.2

/-- A call with a record that meets the condition returns, and the record has its fate. -/
theorem process_keeps (h : Keeping env rs w)
    (hmeets : (Event.process le shared length).Meets env w) :
    wp E ((Event.process le shared length).exec env)
      (fun done w' => done = true ∧ Keeping env (rs ++ [(le, length)]) w') w := by
  obtain ⟨hfits, hopen, hs⟩ := hmeets
  have hprocess : ∀ w : World Dgram Syslog, Keeping env rs w →
      (recordPtr le shared).get w.proto = le →
      (w.socket.writeOpen = true ∨ HasRoom (recordSize le length) w) →
      ((w.proto.frame ≠ none ∧ HasRoom (recordSize le length) w) ∨
        Spared env (recordPtr le shared) w) →
      wp E (process env 2 (recordPtr le shared) length)
        (fun done w' => done = true ∧ Keeping env (rs ++ [(le, length)]) w') w := by
    intro w h hle hopen hs
    rw [← hle] at hfits hopen
    have hp := placeable_of_spared hfits hopen (by rw [hle]; exact hs)
    rw [process, if_neg (not_lt.mpr hfits.1)]
    refine wp_mono (processLoop_placeable h.toBackend hp) ?_
    rintro done w' ⟨hdone, hb, bytes, hsettled, hbytes⟩
    rw [hle] at hsettled hbytes
    obtain rfl := hbytes (hle ▸ hopen)
    exact ⟨hdone, h.settled hb hsettled⟩
  rw [Event.exec, wp_bind, wp_when]
  refine ⟨fun hshared => ?_, fun hshared => ?_⟩
  · subst hshared
    rw [wp_bind, wp_getSyslog, wp_setSyslog]
    refine hprocess (withSyslog w { w.proto with le := le }) ?_ rfl hopen hs
    exact h.same (h.toBackend.withSyslog fun _ => id) rfl (handed_withSyslog rfl)
  · obtain rfl : shared = false := by simpa using hshared
    exact hprocess w h rfl hopen hs

theorem handed_blank (h : Blank w) : handed w = Stream.acceptedBytes dataOnly w.trace := by
  rw [handed, pendingText_blank h, List.append_nil]

/-- A pending frame with records is sent while nothing is logged. -/
theorem send_keeps (h : Keeping env rs w) (hf : w.proto.frame = some f) (hv : (w.heap f).vecs ≠ [])
    {alloc : Bool} (hsilent : Silent env w alloc) :
    wp E (send env (enter env) alloc) (fun _ w' => Keeping env rs w' ∧ Blank w' ∧
      (alloc = false → w'.proto.frame = none)) w := by
  have hnone := hsilent f hf hv
  have hopen : w.socket.writeOpen = true := by
    by_contra hclosed
    cases alloc <;> simp [sendMessages, writeMessages, hclosed] at hnone
  refine wp_mono (send_wp h.toBackend hf hv alloc fun m hm => ?_) ?_
  · rw [hnone] at hm
    cases hm
  · rintro _ w' ⟨hb, hp, hblank, hh⟩
    refine ⟨h.same hb (by rw [hp, sent_emergency]) (hh hopen), hblank, ?_⟩
    rintro rfl
    rw [hp]
    rfl

/-- With a frame to offer, the preparation keeps all records. -/
theorem onPrepare_keeps (h : Keeping env rs w) (hmeets : Event.prepare.Meets env w) :
    wp E (onPrepare env) (fun _ w' => Keeping env rs w') w := by
  obtain ⟨hborrow, hsilent⟩ := hmeets
  rw [onPrepare, wp_bind, wp_getSyslog, wp_bind, wp_when]
  constructor
  · intro hf
    have hnone := hborrow hf
    obtain ⟨f, hof⟩ : ∃ f, offer env.toContext w = some f := by
      refine Option.ne_none_iff_exists'.mp fun ho => ?_
      simp [borrowMessages, Env.answered, ho] at hnone
    have hlog : ∀ m ∈ borrowMessages env w, enter env m = reenter env m := fun m hm => by
      rw [hnone] at hm
      cases hm
    rw [wp_bind, wp_frameAlloc hf hlog, hof]
    dsimp only
    have hframe : (allocated w f (asked env w)).proto.frame = some f := rfl
    rw [wp_pure, wp_bind, wp_getSyslog, hframe]
    dsimp only
    rw [wp_bind, wp_getFrame, Frame.vecLimit, vecs_allocated, if_pos List.length_nil, wp_pure]
    exact h.same (backend_allocated h.toBackend (owner_of_offer hof)) asked_emergency
      (handed_allocated hf)
  · intro hne
    obtain ⟨f, hf⟩ := Option.ne_none_iff_exists'.mp hne
    rw [wp_bind, wp_getSyslog, hf]
    dsimp only
    rw [wp_bind, wp_getFrame, wp_ite]
    refine ⟨fun _ => h, fun hvecs => ?_⟩
    have hv : (w.heap f).vecs ≠ [] := fun hv => hvecs (by rw [Frame.vecLimit, hv]; rfl)
    exact wp_mono (send_keeps h hf hv hsilent) fun _ _ hk => hk.1

/-- What is left of the pending frame is empty, and goes back to the pool. -/
theorem returnPending_keeps (h : Keeping env rs w) (hblank : Blank w) :
    wp E (returnPending env) (fun _ w' => Keeping env rs w') w := by
  rw [returnPending, wp_bind, wp_getSyslog]
  cases hf : w.proto.frame with
  | none => exact h
  | some f =>
    obtain ⟨ho, -⟩ := h.pending f hf
    have h₁ : Detached f (withSyslog w { w.proto with frame := none }) :=
      ⟨h.toBackend.withSyslog (by rintro _ ⟨⟩), ho, by rintro ⟨⟩⟩
    dsimp only
    rw [wp_bind, wp_getFrame, wp_bind, wp_when]
    refine ⟨fun hvecs => ?_, fun _ => ?_⟩
    · rw [Frame.vecLimit, hblank f hf] at hvecs
      exact absurd hvecs (lt_irrefl 0)
    rw [wp_bind, wp_getSyslog, wp_bind, wp_setPending, hf]
    dsimp only
    refine (wp_frameReturn h₁.live).mpr (h.same (h₁.returned env.toContext) rfl ?_)
    have hnone : Blank ((withSyslog w { w.proto with frame := none }).returned env.toContext f) :=
      by rintro _ ⟨⟩
    rw [handed_blank hblank]
    exact (handed_blank hnone).trans (by simp [World.returned, Stream.acceptedBytes])

theorem flush_keeps (h : Keeping env rs w) (rounds : ℕ)
    (hsilent : Silent env w false) :
    wp E (flush env rounds) (fun _ w' => Keeping env rs w') w := by
  have hsocket : ∀ w : World Dgram Syslog, Keeping env rs w →
      wp E (Dgram.flush env.toEnv delegate rounds) (fun _ w' => Keeping env rs w') w :=
    fun w h => wp_mono (Dgram.sending_flush preserves_delegate_error rounds w h.sends)
      fun _ _ h' =>
        have hu := h.toBackend.untouched h'.1 h'.2
        h.same hu.1 hu.2.1 hu.2.2
  rw [flush, wp_bind, wp_getSyslog]
  cases hf : w.proto.frame with
  | none => exact hsocket w h
  | some f =>
    dsimp only
    rw [wp_bind, wp_getFrame, wp_bind, wp_when]
    constructor
    · intro hvecs
      have hv : (w.heap f).vecs ≠ [] := fun hv => by
        rw [Frame.vecLimit, hv] at hvecs
        exact absurd hvecs (lt_irrefl 0)
      refine wp_mono (send_keeps h hf hv hsilent) ?_
      rintro _ w₁ ⟨h₁, hblank₁, -⟩
      rw [wp_bind]
      exact wp_mono (returnPending_keeps h₁ hblank₁) fun _ w₂ h₂ => hsocket w₂ h₂
    · intro hvecs
      have hblank : Blank w := fun g hg => by
        obtain rfl : f = g := Option.some.inj (hf.symm.trans hg)
        exact List.eq_nil_of_length_eq_zero (by simpa [Frame.vecLimit] using hvecs)
      rw [wp_bind]
      exact wp_mono (returnPending_keeps h hblank) fun _ w₂ h₂ => hsocket w₂ h₂

/-- The records of an event. -/
theorem records_cons (e : Event) (events : List Event) :
    records (e :: events) = records [e] ++ records events := by
  cases e <;> rfl

/-- An event that meets the condition does not fail, and keeps all records. -/
theorem event_keeps (e : Event) (h : Keeping env rs w) (hmeets : e.Meets env w) :
    wp E (e.exec env) (fun done w' => done = true ∧ Keeping env (rs ++ records [e]) w') w := by
  have hnone : rs ++ [] = rs := List.append_nil rs
  cases e with
  | process le shared length => exact process_keeps h hmeets
  | prepare =>
    rw [Event.exec, wp_bind]
    exact wp_mono (onPrepare_keeps h hmeets) fun _ _ hk => ⟨rfl, hnone.symm ▸ hk⟩
  | flush rounds =>
    rw [Event.exec, wp_bind]
    exact wp_mono (flush_keeps h rounds hmeets) fun _ _ hk => ⟨rfl, hnone.symm ▸ hk⟩
  | write =>
    rw [Event.exec, wp_bind, wp_getSocket, wp_bind]
    refine wp_mono (keeping_untouched h (Preserves.when _ fun _ => ?_)) fun _ _ hk =>
      ⟨rfl, hnone.symm ▸ hk⟩
    exact Dgram.sending_onWrite preserves_delegate_error
  | error =>
    rw [Event.exec, wp_bind, wp_getSocket, wp_bind]
    refine wp_mono (keeping_untouched h (Preserves.when _ fun _ => ?_)) fun _ _ hk =>
      ⟨rfl, hnone.symm ▸ hk⟩
    refine (Dgram.sending_beside fun s => ?_).bind fun _ =>
      Dgram.sending_error preserves_delegate_error .ECONNRESET
    exact ⟨⟨rfl, rfl, id, rfl⟩, rfl⟩

theorem run_keeps (events : List Event) (h : Keeping env rs w) (hmeets : Meets env events w) :
    wp (fun _ => False) (run env events)
      (fun done w' => done = true ∧ Keeping env (rs ++ records events) w') w := by
  induction events generalizing w rs with
  | nil => exact ⟨rfl, (List.append_nil rs).symm ▸ h⟩
  | cons e events ih =>
    obtain ⟨he, hrest⟩ := hmeets
    obtain ⟨done, w', hm, rfl, hk⟩ := wp_returns (event_keeps (E := fun _ => False) e h he)
    have hk := ih hk (hrest _ _ hm)
    rw [records_cons, ← List.append_assoc]
    rw [run, wp_bind, wp_iff_of_ok hm, if_pos rfl]
    exact hk

/-- In every run whose events meet the condition, no entry point fails, every call with a record
returns, and every record was printed or is in order among what was sent, what waits to be sent
and what the pending frame holds. -/
theorem run_delivers (events : List Event) (h : Backend w) (hempty : handed w = [])
    (hprinted : w.proto.emergency = []) (hmeets : Meets env events w) :
    wp (fun _ => False) (run env events)
      (fun done w' => done = true ∧ Delivered env (records events) w') w := by
  have hstart : Keeping env [] w := ⟨h, [], by rw [hprinted]; exact .nil, hempty⟩
  refine wp_mono (run_keeps events hstart hmeets) ?_
  rintro _ _ ⟨hdone, hk⟩
  exact ⟨hdone, hk.delivered⟩

end Steps

section Examples

-- the run below a closed precondition is evaluated by the kernel alone
attribute [local irreducible] wp

theorem run_delivers_hello :
    wp (fun _ => False) (run offeringEnv [.process hello true 5, .prepare])
      (fun done w' => done = true ∧
        Delivered offeringEnv (records [.process hello true 5, .prepare]) w')
      (started (fresh hello)) := by
  refine run_delivers _ (backend_started hello) rfl rfl ⟨⟨⟨by decide, by decide⟩,
    Or.inr (by rintro _ ⟨⟩), Or.inr (Or.inr ⟨?_, by rintro _ ⟨⟩⟩)⟩,
    fun done w hm => ⟨?_, fun _ _ _ => trivial⟩⟩
  · simp [offer, offeringEnv, started, World.init]
  have hobserved : (((Event.process hello true 5).exec offeringEnv (started (fresh hello))).map
      fun r => decide (r.2.proto.frame = some ⟨0, 0⟩ ∧ r.2.socket.writeOpen = true ∧
        r.2.owner ⟨0, r.2.clock⟩ = .pool)).toOption = some true := by
    decide +kernel
  rw [hm] at hobserved
  obtain ⟨hframe, hopen, howner⟩ := of_decide_eq_true (Option.some.inj hobserved)
  refine ⟨fun hnone => absurd (hframe.symm.trans hnone) (by simp), fun f _ _ => ?_⟩
  have hoffer : offer offeringEnv.toContext w = some ⟨0, w.clock⟩ := by
    simpa [offer, offeringEnv] using howner
  have hopen : w.socket.writeOpen = true := hopen
  rw [sendMessages, if_pos rfl, borrowMessages, hoffer, writeMessages, if_pos hopen]
  rfl

/-- The preparation of a frame fails if the pool has none. -/
theorem not_prepare_delivers : ¬∀ (env : Env) (events : List Event) (w : World Dgram Syslog),
    Backend w → handed w = [] → w.proto.emergency = [] →
    (∀ le length, (le, length) ∈ records events → Fits le length) →
    wp (fun _ => False) (run env events)
      (fun done w' => done = true ∧ Delivered env (records events) w') w := by
  intro h
  have hrun := h { offeringEnv with toEnv := Dgram.idleEnv } [.prepare] (started (fresh hello))
    (backend_started hello) rfl rfl (by rintro _ _ ⟨⟩)
  exact wp_fault hrun (e := .misuse) (by decide +kernel)

end Examples

end Syslog

end FrameTransporter
