import FrameTransporter.Proto.Socks.Filling

/-! # Calls of the SOCKS delegate

What one call of `read` does: it decides, and carries the verdict out on the write
side of the stream. Nothing is read meanwhile.
-/

namespace FrameTransporter

open Hoare Intrusive

namespace Socks

open FrameTransporter.Stream ReadEvent

/-- The write of an error response, and the end of the write side. -/
def refusal (f : FrameId) (writeOpen : Bool) : List Act :=
  [.write f errorResponse writeOpen, .cntl {.WRITE_SHUTDOWN}]

/-- What the connect delegate may answer. -/
abbrev Answers := Char → List UInt8 → ℕ → Bool → Prop

/-- What is done for a verdict. -/
inductive Carried (A : Answers) (f : FrameId) (writeOpen : Bool) : Verdict → List Act → Prop
  | refused : Carried A f writeOpen (.request none) (refusal f writeOpen)
  | connected {t : Char} {h : List UInt8} {p : ℕ} (ha : A t h p true) :
    Carried A f writeOpen (.request (some (t, h, p))) [.connect t h p true, .frameReturn f]
  | declined {t : Char} {h : List UInt8} {p : ℕ} (ha : A t h p false) :
    Carried A f writeOpen (.request (some (t, h, p)))
      (.connect t h p false :: refusal f writeOpen)
  | selected : Carried A f writeOpen (.select 0) [.write f [5, 0] writeOpen]
  | rejected : Carried A f writeOpen (.select 0xFF)
    [.write f [5, 0xFF] writeOpen, .cntl {.WRITE_SHUTDOWN}]
  | closed : Carried A f writeOpen .close
    [.frameReturn f, .cntl {.WRITE_SHUTDOWN, .READ_STOP}]

/-- What a call of `read` did. -/
inductive Ran (A : Answers) (c : Call) : Prop
  | ended (type : c.frame.type = .endOfStream) (taken : c.taken = true)
    (acts : c.acts = if c.writeOpen then [.write c.id c.frame.pendingBytes true]
      else [.frameReturn c.id])
  | more {this : Socks} {x : Frame} (type : c.frame.type ≠ .endOfStream)
    (decision : decision c.socks c.frame = .ok (this, x, none)) (taken : c.taken = false)
    (acts : c.acts = []) (vecs : c.vecs = x.vecs) (vecPosition : c.vecPosition = x.vecPosition)
  | done {this : Socks} {x : Frame} {v : Verdict} (type : c.frame.type ≠ .endOfStream)
    (decision : decision c.socks c.frame = .ok (this, x, some v)) (taken : c.taken = true)
    (acts : Carried A c.id c.writeOpen v c.acts)

/-- A call leaves the protocol in this state. -/
def Call.Leaves (c : Call) (this : Socks) : Prop :=
  if c.frame.type = .endOfStream then this = c.socks
  else ∃ x v, decision c.socks c.frame = .ok (this, x, v)

/-- Calls that follow one another from a new protocol on, and the state that they leave. -/
inductive Threaded (ATYP : UInt8) : List Call → Socks → Prop
  | nil : Threaded ATYP [] (init ATYP)
  | concat {calls : List Call} {c : Call} {this : Socks} (h : Threaded ATYP calls c.socks)
    (hc : c.Leaves this) : Threaded ATYP (calls ++ [c]) this

/-- The call stops reading. -/
def Call.Stops (c : Call) : Prop := ∃ codes, Act.cntl codes ∈ c.acts ∧ .READ_STOP ∈ codes

section Acts

variable {env : Env} {w w' w'' : World Stream Session} {f : FrameId} {acts acts' : List Act}
  {this this' this'' : Socks}

/-- The delegate acted, and left the protocol as listed. -/
structure Acted (this : Socks) (acts : List Act) (w w' : World Stream Session) : Prop where
  sizes : Sizes w'
  apart : Apart w w'
  socks : w'.proto.socks = this
  acts : w'.proto.acts = w.proto.acts ++ acts
  calls : w'.proto.calls = w.proto.calls

theorem Acted.trans (h : Acted this acts w w') (h' : Acted this' acts' w' w'') :
    Acted this' (acts ++ acts') w w'' where
  sizes := h'.sizes
  apart := trans_of Apart h.apart h'.apart
  socks := h'.socks
  acts := by rw [h'.acts, h.acts, List.append_assoc]
  calls := h'.calls.trans h.calls

/-- The world with another protocol. -/
def withProto (w : World Stream Session) (p : Session) : World Stream Session :=
  { w with proto := p }

@[simp] theorem wp_note {E : Fault → Prop} (x : Act) {Q : Unit → World Stream Session → Prop} :
    wp E (note x) Q w ↔ Q () (withProto w { w.proto with acts := w.proto.acts ++ [x] }) := Iff.rfl

@[simp] theorem wp_getSocks {E : Fault → Prop} {Q : Socks → World Stream Session → Prop} :
    wp E getSocks Q w ↔ Q w.proto.socks w := Iff.rfl

@[simp] theorem wp_setSocks {E : Fault → Prop} (this : Socks)
    {Q : Unit → World Stream Session → Prop} :
    wp E (setSocks this) Q w ↔ Q () (withProto w { w.proto with socks := this }) := Iff.rfl

@[simp] theorem wp_setSession {E : Fault → Prop} (p : Session)
    {Q : Unit → World Stream Session → Prop} :
    wp E (setSession p) Q w ↔ Q () (withProto w p) := Iff.rfl

/-- Beside the protocol nothing else is looked at. -/
theorem apart_withProto {p p' : Session} (h : Apart (withProto w p) w') :
    Apart w (withProto w' p') := ⟨h.readFrame, h.readPartial, h.inputs, h.wantRead⟩

/-- What the write side did is noted. -/
theorem acted_note {x : Act} (h : Sizes w') (k : Still False w w') :
    Acted w.proto.socks [x] w (withProto w' { w'.proto with acts := w'.proto.acts ++ [x] }) where
  sizes := h
  apart := ⟨k.readFrame, k.readPartial, k.inputs, k.wantRead⟩
  socks := show w'.proto.socks = w.proto.socks by rw [k.proto]
  acts := show w'.proto.acts ++ [x] = w.proto.acts ++ [x] by rw [k.proto]
  calls := show w'.proto.calls = w.proto.calls by rw [k.proto]

theorem writeDelegate_writeSide (env : Env) :
    WriteSide Sizes (Still False) (writeDelegate env) where
  toSideSteps := sideSteps_still
  onError := preserves_pure _
  onReturn g hg := by cases hg

theorem giveBack_acted (h : Sizes w) (f : FrameId) :
    wp (fun _ => True) (giveBack env f) (fun _ => Acted w.proto.socks [.frameReturn f] w) w := by
  unfold giveBack
  rw [wp_bind]
  refine wp_mono (sideSteps_still.frameReturn env.toContext f w h) ?_
  rintro _ _ ⟨h₁, k₁⟩
  exact acted_note h₁ k₁

/-- A frame is accepted while the write side is open. -/
theorem write_accepts : wp (fun _ => True) (Stream.write env (writeDelegate env) f)
    (fun ok _ => ok = w.socket.writeOpen) w := by
  unfold Stream.write
  rw [wp_bind, wp_getSocket, wp_ite]
  refine ⟨fun hc => hc.symm, fun hc => ?_⟩
  have ho : true = w.socket.writeOpen := by simpa using hc
  have hreal : ∀ w, wp (fun _ => True) (do
      writeReal env (writeDelegate env)
      return true) (fun ok _ => ok = true) w := fun w => by
    rw [wp_bind]
    exact wp_intro (fun _ _ _ => rfl) fun _ _ => trivial
  rw [wp_bind, wp_enqueueFrame, wp_ite]
  refine ⟨fun _ => ?_, fun _ => wp_mono (hreal _) fun _ _ h => h.trans ho⟩
  rw [wp_bind, wp_when]
  exact ⟨fun _ => ho, fun _ => ho⟩

theorem write_acted (h : Sizes w) (f : FrameId) :
    wp (fun _ => True) (write env f)
      (fun _ => Acted w.proto.socks
        [.write f (w.heap f).pendingBytes w.socket.writeOpen] w) w := by
  unfold write
  rw [wp_bind, wp_getFrame, wp_bind]
  refine wp_mono (wp_and ((writeDelegate_writeSide env).write f w h) write_accepts) ?_
  rintro ok w₁ ⟨⟨h₁, k₁⟩, hok⟩
  rw [hok, wp_bind, wp_note, wp_pure]
  exact acted_note h₁ k₁

theorem writeShutdown_still (env : Env) :
    Preserves (fun _ => True) Sizes (Still False)
      (Stream.cntlWriteShutdown env (writeDelegate env)) :=
  (writeDelegate_writeSide env).cntlWriteShutdown

theorem cntlShutdown_acted (h : Sizes w) :
    wp (fun _ => True) (cntl env {.WRITE_SHUTDOWN})
      (fun _ => Acted w.proto.socks [.cntl {.WRITE_SHUTDOWN}] w) w := by
  have hcode := writeShutdown_still env w h
  unfold cntl Stream.cntl
  rw [Cntl.filter_singleton, cntlCodes, wp_bind, wp_bind]
  refine wp_mono hcode ?_
  rintro _ _ ⟨h₁, k₁⟩
  rw [wp_bind, cntlCodes]
  exact acted_note h₁ k₁

/-- The stream is closed on both sides, and reads nothing more. -/
theorem cntlClose_acted (h : Sizes w) :
    wp (fun _ => True) (cntl env {.WRITE_SHUTDOWN, .READ_STOP})
      (fun _ w' => Acted w.proto.socks [.cntl {.WRITE_SHUTDOWN, .READ_STOP}] w w' ∧
        READ_WANT_READ ∉ w'.socket.readEvents) w := by
  have hcodes : Cntl.all.filter (· ∈ ({.WRITE_SHUTDOWN, .READ_STOP} : Finset Cntl)) =
      [.READ_STOP, .WRITE_SHUTDOWN] := by decide
  have hstop := writeStep_readUnsetEvent {READ_WANT_READ} w.socket
  have hs : READ_WANT_READ ∉ (readUnsetEvent {READ_WANT_READ} w.socket).readEvents := by
    rw [readUnsetEvent_eq]
    simp
  have k : Still False w (w.setSocket (readUnsetEvent {READ_WANT_READ} w.socket)) :=
    still_step hstop
  have hcode := writeShutdown_still env
    (w.setSocket (readUnsetEvent {READ_WANT_READ} w.socket)) h
  unfold cntl Stream.cntl
  rw [hcodes, cntlCodes, wp_bind, wp_bind]
  unfold cntlCode cntlReadStop
  rw [wp_bind, wp_modifySocket, wp_pure, wp_bind, cntlCodes, wp_bind]
  refine wp_mono hcode ?_
  rintro _ _ ⟨h₁, k₁⟩
  rw [wp_bind, cntlCodes]
  exact ⟨acted_note h₁ (trans_of (Still False) k k₁), mt k₁.wantRead hs⟩

theorem acted_setFrame (f : FrameId) {x : Frame} (h : Sizes w) (hx : x.capacity = FRAME_SIZE) :
    Acted w.proto.socks [] w (w.setFrame f x) :=
  ⟨h.setFrame hx, ⟨rfl, rfl, rfl, id⟩, rfl, (List.append_nil _).symm, rfl⟩

theorem acted_setSocks (this : Socks) (h : Sizes w) :
    Acted this [] w (withProto w { w.proto with socks := this }) :=
  ⟨h, ⟨rfl, rfl, rfl, id⟩, rfl, (List.append_nil _).symm, rfl⟩

/-- A reply is written if the write side is open. -/
theorem respond_acted (h : Sizes w) (f : FrameId) (bytes : List UInt8) :
    wp (fun _ => True) (respond env f bytes)
      (fun _ => Acted w.proto.socks [.write f bytes w.socket.writeOpen] w) w := by
  unfold respond
  rw [wp_bind, wp_getFrame, wp_bind, Frame.formatSimple_eq (h f), wp_liftM_ok, wp_bind]
  have hv : ({ w.heap f with vecs := Frame.simple, vecPosition := 0 } : Frame).getVec =
      .ok (some ⟨0, 0, FRAME_SIZE - SIZEOF_VEC, FRAME_SIZE - SIZEOF_VEC⟩) := rfl
  rw [hv, wp_liftM_ok]
  dsimp only
  rw [wp_bind, wp_setFrame]
  generalize hx : Frame.flip _ = x
  have hc : x.capacity = FRAME_SIZE := hx ▸ h f
  have hp : x.pendingBytes = bytes := by
    rw [← hx]
    simp [Frame.flip, Frame.modifyVec, Frame.write, Frame.simple, Frame.pendingBytes,
      Frame.remainingBytes, Vec.flip]
  have k := acted_setFrame f h hc
  refine wp_mono (write_acted k.sizes f) fun _ w₁ h₁ => ?_
  have hself : (w.setFrame f x).heap f = x := by simp
  rw [hself, hp] at h₁
  exact k.trans h₁

theorem sendErrorResponse_acted (h : Sizes w) (f : FrameId) :
    wp (fun _ => True) (sendErrorResponse env f)
      (fun _ => Acted w.proto.socks (refusal f w.socket.writeOpen) w) w := by
  unfold sendErrorResponse
  rw [wp_bind]
  refine wp_mono (respond_acted h f _) fun _ w₁ h₁ => ?_
  exact wp_mono (cntlShutdown_acted h₁.sizes) fun _ w₂ h₂ => h₁.socks ▸ h₁.trans h₂

/-- What a request is answered with, as `decision` has it. -/
def answered (this : Socks) (x : Frame) :
    Except Fault (Socks × Option (Char × List UInt8 × ℕ)) :=
  if this.CD ≠ 1 then .ok (this, none)
  else do
    let (this, r) ← target this x
    return (this, r.filter fun t => t.2.1 ≠ [])

/-- The connect delegate is called, and the request is refused if it declines. -/
theorem connect_acted {connect : Connect} {A : Answers}
    (hA : ∀ t h p n, A t h p (connect t h p n)) (h : Sizes w) (f : FrameId) (t : Char)
    (host : List UInt8) (port : ℕ) :
    wp (fun _ => True) (do
      let ok ← ask (connect t host port)
      note (.connect t host port ok)
      if ok then giveBack env f else sendErrorResponse env f) (fun _ w' => ∃ acts,
        Carried A f w.socket.writeOpen (.request (some (t, host, port))) acts ∧
          Acted w.proto.socks acts w w') w := by
  have hc := hA t host port w.clock
  rw [wp_bind, wp_ask, wp_bind, wp_note]
  generalize connect t host port w.clock = ok at hc ⊢
  have k : Acted w.proto.socks [.connect t host port ok] w (withProto w.tick
      { w.proto with acts := w.proto.acts ++ [.connect t host port ok] }) :=
    ⟨h, ⟨rfl, rfl, rfl, id⟩, rfl, rfl, rfl⟩
  cases ok with
  | true => exact wp_mono (giveBack_acted k.sizes f) fun _ _ h₁ => ⟨_, .connected hc, k.trans h₁⟩
  | false =>
    exact wp_mono (sendErrorResponse_acted k.sizes f) fun _ _ h₁ => ⟨_, .declined hc, k.trans h₁⟩

theorem onRequest_acted {connect : Connect} {A : Answers}
    (hA : ∀ t h p n, A t h p (connect t h p n)) (h : Sizes w) (f : FrameId) :
    wp (fun _ => True) (onRequest env connect f) (fun _ w' => ∃ this t acts,
      answered w.proto.socks (w.heap f) = .ok (this, t) ∧
        Carried A f w.socket.writeOpen (.request t) acts ∧ Acted this acts w w') w := by
  unfold onRequest
  rw [wp_bind, wp_getSocks, wp_ite]
  refine ⟨fun hcd => ?_, fun hcd => ?_⟩
  · refine wp_mono (sendErrorResponse_acted h f) fun _ w₁ h₁ => ?_
    exact ⟨_, none, _, if_pos hcd, .refused, h₁⟩
  · rw [wp_bind, wp_getFrame, wp_bind]
    cases ht : target w.proto.socks (w.heap f) with
    | error e => trivial
    | ok r =>
      obtain ⟨this, r⟩ := r
      have ha : answered w.proto.socks (w.heap f) =
          .ok (this, r.filter fun t => t.2.1 ≠ []) := by
        rw [answered, if_neg hcd, ht]
        rfl
      have k := acted_setSocks this h
      rw [wp_liftM_ok]
      dsimp only
      rw [wp_bind, wp_setSocks]
      cases r with
      | none =>
        refine wp_mono (sendErrorResponse_acted k.sizes f) fun _ w₁ h₁ => ?_
        exact ⟨this, none, _, ha, .refused, k.trans h₁⟩
      | some r =>
        obtain ⟨t, host, port⟩ := r
        dsimp only
        rw [wp_ite]
        refine ⟨fun hh => ?_, fun hh => ?_⟩
        · refine wp_mono (sendErrorResponse_acted k.sizes f) fun _ w₁ h₁ => ?_
          refine ⟨this, none, _, ?_, .refused, k.trans h₁⟩
          rw [ha, hh]
          rfl
        · have ha : answered w.proto.socks (w.heap f) = .ok (this, some (t, host, port)) := by
            rw [ha, Option.filter_some_pos (by simpa using hh)]
          refine wp_mono (connect_acted hA k.sizes f t host port) ?_
          rintro _ w₁ ⟨acts, hc, h₁⟩
          exact ⟨this, some (t, host, port), acts, ha, hc, k.trans h₁⟩

/-- A method is selected if the client offers the one without authentication. -/
theorem onMethodSelectionRequest_acted {A : Answers} {v : Vec} (h : Sizes w) (f : FrameId)
    (hv : vecAt (w.heap f) 2 = .ok v) :
    wp (fun _ => True) (onMethodSelectionRequest env f) (fun _ w' =>
      w.proto.socks.SELMETHOD = 0xFF ∧ ∃ m acts, (if 0 ∈ (w.heap f).receivedBytes v then
        w'.proto.socks = { w.proto.socks with SELMETHOD := 0, authorized := true } ∧ m = 0
      else w'.proto.socks = w.proto.socks ∧ m = 0xFF) ∧
        Carried A f w.socket.writeOpen (.select m) acts ∧ Acted w'.proto.socks acts w w') w := by
  unfold onMethodSelectionRequest
  rw [wp_bind, wp_getSocks, wp_bind, wp_getFrame, wp_bind, hv, wp_liftM_ok, wp_ite]
  refine ⟨fun _ => trivial, fun hm => ?_⟩
  have hm : w.proto.socks.SELMETHOD = 0xFF := not_not.mp hm
  generalize hsel : (if 0 ∈ (w.heap f).receivedBytes v then
    { w.proto.socks with SELMETHOD := 0 } else w.proto.socks) = this
  have k := acted_setSocks this h
  rw [wp_bind, wp_setSocks, wp_bind]
  refine wp_mono (respond_acted k.sizes f [5, this.SELMETHOD]) fun _ w₁ h₁ => ?_
  have h₁ := k.trans h₁
  by_cases h0 : 0 ∈ (w.heap f).receivedBytes v
  · rw [if_pos h0] at hsel
    subst hsel
    rw [wp_bind, wp_when, wp_when]
    refine ⟨fun hc => absurd hc (by simp), fun _ => ⟨fun _ => ?_, fun hc => absurd rfl hc⟩⟩
    have k₁ := acted_setSocks { w.proto.socks with SELMETHOD := 0, authorized := true }
      h₁.sizes
    refine ⟨hm, 0, _, ?_, .selected, h₁.trans k₁⟩
    rw [if_pos h0]
    exact ⟨rfl, rfl⟩
  · rw [if_neg h0] at hsel
    subst hsel
    rw [wp_bind, wp_when, hm]
    refine ⟨fun _ => ?_, fun hc => absurd rfl hc⟩
    refine wp_mono (cntlShutdown_acted h₁.sizes) fun _ w₂ h₂ => ?_
    rw [wp_when]
    refine ⟨fun hc => absurd hc (by decide), fun _ => ?_⟩
    have hs₁ : w₁.proto.socks = w.proto.socks := h₁.socks
    have hs₂ : w₂.proto.socks = w.proto.socks := h₂.socks.trans h₁.socks
    have h₃ := h₁.trans h₂
    rw [hm, hs₁] at h₃
    refine ⟨rfl, 0xFF, _, ?_, .rejected, hs₂.symm ▸ h₃⟩
    rw [if_neg h0]
    exact ⟨hs₂, rfl⟩

theorem decision_request {this' : Socks} {x y : Frame} {t : Option (Char × List UInt8 × ℕ)}
    (hr : onRead this x = .ok (this', y, .request))
    (ha : answered this' y = .ok (this'', t)) :
    decision this x = .ok (this'', y, some (.request t)) := by
  rw [decision, hr]
  unfold answered at ha
  split_ifs at ha with hcd
  · cases ha
    exact if_pos hcd
  · obtain ⟨r, ht, ha⟩ := bind_ok ha
    cases ha
    refine (if_neg hcd).trans ?_
    rw [ht]
    rfl

theorem decision_select {this' : Socks} {x y : Frame} {v : Vec} {m : UInt8}
    (hr : onRead this x = .ok (this', y, .select)) (hv : vecAt y 2 = .ok v)
    (hm : this'.SELMETHOD = 0xFF)
    (hs : if 0 ∈ y.receivedBytes v then
      this'' = { this' with SELMETHOD := 0, authorized := true } ∧ m = 0
    else this'' = this' ∧ m = 0xFF) :
    decision this x = .ok (this'', y, some (.select m)) := by
  rw [decision, hr]
  change (vecAt y 2 >>= _) = _
  rw [hv]
  refine (if_neg (not_not_intro hm)).trans ?_
  split_ifs at hs ⊢ with h0
  · obtain ⟨rfl, rfl⟩ := hs
    rfl
  · obtain ⟨rfl, rfl⟩ := hs
    rfl

/-- A call of `read` for a data frame does what is decided, and the frame it refuses is as
decided. -/
theorem read_decides {connect : Connect} {A : Answers}
    (hA : ∀ t h p n, A t h p (connect t h p n)) (h : Sizes w) (f : FrameId)
    (ht : (w.heap f).type ≠ .endOfStream) :
    wp (fun _ => True) (read env connect f) (fun taken w' => ∃ x v acts,
      decision w.proto.socks (w.heap f) = .ok (w'.proto.socks, x, v) ∧
        Acted w'.proto.socks acts w w' ∧
        match v with
        | none => taken = false ∧ acts = [] ∧ w'.heap f = x
        | some v => taken = true ∧ Carried A f w.socket.writeOpen v acts ∧
          (v = .close → READ_WANT_READ ∉ w'.socket.readEvents)) w := by
  unfold read
  rw [wp_bind, wp_getFrame, wp_ite]
  refine ⟨fun hc => absurd hc ht, fun _ => ?_⟩
  rw [wp_bind, wp_getSocks, wp_bind]
  cases hr : onRead w.proto.socks (w.heap f) with
  | error e => trivial
  | ok r =>
    obtain ⟨this, x, outcome⟩ := r
    have hcap : x.capacity = FRAME_SIZE := (keeps_onRead _ hr).capacity.trans (h f)
    rw [wp_liftM_ok]
    dsimp only
    rw [wp_bind, wp_setSocks, wp_bind, wp_setFrame]
    have k := (acted_setSocks this h).trans (acted_setFrame f
      (acted_setSocks this h).sizes hcap)
    have hself : ((withProto w { w.proto with socks := this }).setFrame f x).heap f = x := by simp
    have hopen : ((withProto w { w.proto with socks := this }).setFrame f x).socket.writeOpen =
      w.socket.writeOpen := rfl
    generalize (withProto w { w.proto with socks := this }).setFrame f x = w₁ at k hself hopen ⊢
    cases outcome with
    | more =>
      refine ⟨x, none, [], ?_, k.socks ▸ k, rfl, rfl, hself⟩
      rw [decision, hr, k.socks]
      rfl
    | request =>
      dsimp only
      rw [wp_bind]
      refine wp_mono (onRequest_acted hA k.sizes f) ?_
      rintro _ w₂ ⟨this', t, acts, ha, hc, h₂⟩
      rw [k.socks, hself] at ha
      rw [hopen] at hc
      refine ⟨x, some (.request t), acts, ?_, h₂.socks ▸ k.trans h₂, rfl, hc, by rintro ⟨⟩⟩
      rw [h₂.socks]
      exact decision_request hr ha
    | select =>
      dsimp only
      rw [wp_bind]
      cases hv : vecAt x 2 with
      | error e =>
        refine wp_mono (?_ : wp (fun _ => True) _ (fun _ _ => False) w₁) fun _ _ h => h.elim
        unfold onMethodSelectionRequest
        rw [wp_bind, wp_getSocks, wp_bind, wp_getFrame, wp_bind, hself, hv]
        trivial
      | ok v =>
        refine wp_mono (onMethodSelectionRequest_acted (A := A) k.sizes f (hself.symm ▸ hv)) ?_
        rintro _ w₂ ⟨hm, m, acts, hs, hc, h₂⟩
        rw [hself, k.socks] at hs
        rw [k.socks] at hm
        rw [hopen] at hc
        refine ⟨x, some (.select m), acts, ?_, k.trans h₂, rfl, hc, by rintro ⟨⟩⟩
        exact decision_select hr hv hm hs
    | fail =>
      dsimp only
      rw [wp_bind]
      refine wp_mono (giveBack_acted k.sizes f) fun _ w₂ h₂ => ?_
      rw [wp_bind]
      refine wp_mono (cntlClose_acted h₂.sizes) ?_
      rintro _ w₃ ⟨h₃, hstop⟩
      have hs : w₃.proto.socks = this := h₃.socks.trans (h₂.socks.trans k.socks)
      refine ⟨x, some .close, _, ?_, h₃.socks ▸ (k.trans h₂).trans h₃, rfl, .closed,
        fun _ => hstop⟩
      rw [decision, hr, hs]
      rfl

end Acts

section Notes

variable {env : Env} {connect : Connect} {A : Answers} {w w' : World Stream Session}
  {f : FrameId} {c : Call}

/-- A call of `read` was made and noted. -/
structure Noted (A : Answers) (w : World Stream Session) (c : Call) (w' : World Stream Session) :
    Prop where
  sizes : Sizes w'
  apart : Apart w w'
  frame : c.frame = w.heap c.id
  socks : c.socks = w.proto.socks
  calls : w'.proto.calls = w.proto.calls ++ [c]
  ran : Ran A c
  decided : c.frame.type ≠ .endOfStream → ∃ x v,
    decision c.socks c.frame = .ok (w'.proto.socks, x, v) ∧ c.taken = v.isSome ∧
      (v = none → w'.heap c.id = x)
  ended : c.frame.type = .endOfStream → w'.proto.socks = w.proto.socks
  stops : c.Stops → READ_WANT_READ ∉ w'.socket.readEvents

theorem Noted.leaves (h : Noted A w c w') : c.Leaves w'.proto.socks := by
  unfold Call.Leaves
  split
  · next ht => exact (h.ended ht).trans h.socks.symm
  · next ht =>
    obtain ⟨x, v, hd, -⟩ := h.decided ht
    exact ⟨x, v, hd⟩

theorem Noted.threaded {ATYP : UInt8} (h : Noted A w c w')
    (ht : Threaded ATYP w.proto.calls w.proto.socks) :
    Threaded ATYP w'.proto.calls w'.proto.socks := by
  rw [h.calls]
  exact .concat (h.socks ▸ ht) h.leaves

/-- Reading stops only with the end of the stream. -/
theorem Carried.close_of_stop {writeOpen : Bool} {v : Verdict} {acts : List Act}
    {codes : Finset Cntl} (h : Carried A f writeOpen v acts) (hc : Act.cntl codes ∈ acts)
    (hs : .READ_STOP ∈ codes) : v = .close := by
  cases h with
  | closed => rfl
  | _ => simp_all [refusal]

/-- The end-of-stream frame is passed on, or given back if the write side is closed. -/
theorem read_ended (h : Sizes w) (f : FrameId) (ht : (w.heap f).type = .endOfStream) :
    wp (fun _ => True) (read env connect f) (fun taken w' => taken = true ∧
      Acted w.proto.socks (if w.socket.writeOpen then [.write f (w.heap f).pendingBytes true]
        else [.frameReturn f]) w w') w := by
  unfold read
  rw [wp_bind, wp_getFrame, wp_ite]
  refine ⟨fun _ => ?_, fun hc => absurd ht hc⟩
  rw [wp_bind, wp_getSocket]
  cases ho : w.socket.writeOpen with
  | false =>
    rw [if_pos rfl, wp_bind]
    exact wp_mono (giveBack_acted h f) fun _ w₁ h₁ => ⟨rfl, h₁⟩
  | true =>
    rw [if_neg (by decide), wp_bind]
    refine wp_mono (write_acted h f) fun _ w₁ h₁ => ⟨rfl, ?_⟩
    rwa [ho] at h₁

theorem noted_read (hA : ∀ t h p n, A t h p (connect t h p n)) (h : Sizes w) (f : FrameId) :
    wp (fun _ => True) ((delegate env connect).read f)
      (fun taken w' => ∃ c, c.id = f ∧ c.taken = taken ∧ Noted A w c w') w := by
  change wp (fun _ => True) (noted (read env connect) f) _ w
  unfold noted
  rw [wp_bind, wp_get, wp_bind, wp_setSession, wp_bind]
  by_cases ht : (w.heap f).type = .endOfStream
  · refine wp_mono (read_ended (w := withProto w { w.proto with acts := [] }) h f ht) ?_
    rintro taken w₁ ⟨htaken, h₁⟩
    have hacts : w₁.proto.acts = if w.socket.writeOpen then [.write f (w.heap f).pendingBytes true]
      else [.frameReturn f] := h₁.acts
    rw [wp_bind, wp_get, wp_bind, wp_setSession]
    refine ⟨⟨f, w.heap f, w.proto.socks, w.socket.writeOpen, w₁.proto.acts, taken,
      (w₁.heap f).vecs, (w₁.heap f).vecPosition⟩, rfl, rfl, ?_⟩
    refine ⟨h₁.sizes, apart_withProto h₁.apart, rfl, rfl, congrArg (· ++ [_]) h₁.calls,
      .ended ht htaken hacts,
      fun hn => absurd ht hn, fun _ => h₁.socks, ?_⟩
    rintro ⟨codes, hc, -⟩
    rw [hacts] at hc
    split at hc <;> simp at hc
  · refine wp_mono (read_decides (w := withProto w { w.proto with acts := [] }) hA h f ht) ?_
    rintro taken w₁ ⟨x, v, acts, hd, h₁, hv⟩
    have hacts : w₁.proto.acts = acts := h₁.acts
    rw [wp_bind, wp_get, wp_bind, wp_setSession]
    refine ⟨⟨f, w.heap f, w.proto.socks, w.socket.writeOpen, w₁.proto.acts, taken,
      (w₁.heap f).vecs, (w₁.heap f).vecPosition⟩, rfl, rfl, ?_⟩
    cases v with
    | none =>
      obtain ⟨rfl, rfl, hx⟩ := hv
      refine ⟨h₁.sizes, apart_withProto h₁.apart, rfl, rfl, congrArg (· ++ [_]) h₁.calls,
        .more ht hd rfl hacts (congrArg Frame.vecs hx) (congrArg Frame.vecPosition hx),
        fun _ => ⟨x, none, hd, rfl, fun _ => hx⟩, fun hn => absurd hn ht, ?_⟩
      rintro ⟨codes, hc, -⟩
      rw [hacts] at hc
      cases hc
    | some v =>
      obtain ⟨rfl, hcar, hstop⟩ := hv
      refine ⟨h₁.sizes, apart_withProto h₁.apart, rfl, rfl, congrArg (· ++ [_]) h₁.calls,
        .done ht hd rfl (hacts ▸ hcar), fun _ => ⟨x, some v, hd, rfl, by rintro ⟨⟩⟩,
        fun hn => absurd hn ht, ?_⟩
      rintro ⟨codes, hc, hs⟩
      rw [hacts] at hc
      exact hstop (hcar.close_of_stop hc hs)

end Notes

end Socks

end FrameTransporter
