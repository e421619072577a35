import FrameTransporter.Sock.Stream.Events

/-! # Runs of a stream

A run is a list of events: calls of the application, and watchers that fire while
they are active. The delegate is an adversary. In each callback it makes calls of
its own, which may lead to further callbacks, up to any depth of nesting. Calls
that break the ownership of frames, and events that a theorem does not allow, are
not made.
-/

namespace FrameTransporter

open Hoare

namespace Stream

/-- What the application, or the delegate in a callback, does with a stream and with frames. -/
inductive Call
  | write (f : FrameId)
  | cntl (codes : Finset Cntl)
  | enableSsl (r : SslNew)
  | setPartial (readPartial : Bool)
  | borrow (type : FrameType)
  | frameReturn (f : FrameId)
  | fill (f : FrameId) (type : FrameType) (vecs : List Vec) (vecPosition : ℕ) (data : ℕ → UInt8)

/-- An event of a run. After an error the event loop stops the watchers first. -/
inductive Event
  | call (c : Call)
  | read
  | write
  | error

/-- The ownership contract: users touch only frames they hold, and leave no free frame. -/
def Call.Permitted {π : Type} (w : World Stream π) : Call → Prop
  | .write f | .frameReturn f => w.owner f = .user
  | .borrow type => type ≠ .free
  | .fill f type _ _ _ => w.owner f = .user ∧ type ≠ .free
  | _ => True

instance {π : Type} (w : World Stream π) : (c : Call) → Decidable (c.Permitted w)
  | .write f | .frameReturn f => inferInstanceAs (Decidable (w.owner f = .user))
  | .borrow type => inferInstanceAs (Decidable (type ≠ .free))
  | .fill f type _ _ _ => inferInstanceAs (Decidable (w.owner f = .user ∧ type ≠ .free))
  | .cntl _ | .enableSsl _ | .setPartial _ => inferInstanceAs (Decidable True)

variable {π : Type} (env : Env) (d : Delegate π)

def Call.perform : Call → StreamM π Unit
  | .write f => do let _ ← Stream.write env d f
  | .cntl codes => do let _ ← Stream.cntl env d codes
  | .enableSsl r => do let _ ← Stream.enableSsl r
  | .setPartial b => modifySocket fun s => { s with readPartial := b }
  | .borrow type => do let _ ← poolBorrow env.toContext type "application" 1
  | .frameReturn f => FrameTransporter.frameReturn env.toContext f
  | .fill f type vecs vecPosition data => do
    let x ← getFrame f
    setFrame f { x with type, vecs, vecPosition, data }

variable (allow : World Stream π → Event → Prop) [∀ w e, Decidable (allow w e)]

def Call.exec (c : Call) : StreamM π Unit := do
  let w ← get
  when (c.Permitted w ∧ allow w (.call c)) <| c.perform env d

def Event.exec : Event → StreamM π Unit
  | .call c => c.exec env d allow
  | .read => do
    let w ← get
    when (w.socket.readWatcher = true ∧ allow w .read) <| onRead env d
  | .write => do
    let w ← get
    when (w.socket.writeWatcher = true ∧ allow w .write) <| onWrite env d
  | .error => do
    let w ← get
    when ((w.socket.readWatcher = true ∨ w.socket.writeWatcher = true) ∧ allow w .error) do
      modifySocket fun s => { s with readWatcher := false, writeWatcher := false }
      onError env d

def run (events : List Event) : StreamM π Unit := forM events (Event.exec env d allow)

/-- The behaviour of a delegate: the calls it makes in each callback and its answers. A frame that
`get_read_frame` answers, or that `read` refuses, gets the listed vectors and cursor; the bytes of
a refused frame stay as they were. -/
structure Script where
  getReadFrame : Option (ℕ → List Call × Option (FrameId × List Vec × ℕ))
  read : FrameId → Frame → ℕ → List Call × Option (List Vec × ℕ)
  connected : ℕ → List Call
  error : ℕ → List Call
  frameReturn : Option (FrameId → Char → ℕ → List Call)

/-- The delegate that follows a script, where `calls` makes the calls. -/
def Script.delegate (script : Script) (calls : List Call → StreamM π Unit) : Delegate π where
  getReadFrame := script.getReadFrame.map fun getReadFrame => do
    let (cs, frame) ← ask getReadFrame
    calls cs
    let w ← get
    match frame with
    | some (f, vecs, vecPosition) =>
      if w.owner f = .user then
        setFrame f { w.heap f with vecs, vecPosition }
        return some f
      else return none
    | none => return none
  read f := do
    let x ← getFrame f
    let (cs, refused) ← ask (script.read f x)
    calls cs
    let w ← get
    match refused with
    | some (vecs, vecPosition) =>
      if w.owner f = .user then
        setFrame f { w.heap f with data := x.data, vecs, vecPosition }
        return false
      else return true
    | none => return true
  connected := do calls (← ask script.connected)
  error := do calls (← ask script.error)
  frameReturn := script.frameReturn.map fun frameReturn f side => do
    calls (← ask (frameReturn f side))

/-- The calls of a callback, with callbacks nested at most `n` deep below it. -/
def nestedCalls (script : Script) : ℕ → List Call → StreamM π Unit
  | 0, _ => pure ()
  | n + 1, cs => forM cs (Call.exec env (script.delegate (nestedCalls script n)) allow)

/-- The delegate of a script whose callbacks are nested at most `n` deep. -/
def scripted (script : Script) (n : ℕ) : Delegate π :=
  script.delegate (nestedCalls env allow script n)

/-- A system that has no data, takes no data and never finishes a handshake, and a pool without
frames. -/
def idleEnv : Env where
  evNow _ := 0
  framePool _ := none
  availableFrames _ := none
  sockEstMaxReadLoops := 10
  sockEstMaxWriteLoops := 10
  soError _ := .none
  recv _ _ := .failed .EAGAIN
  send _ _ := .failed .EAGAIN
  sslDoHandshake _ _ := .failed ⟨-1, none, .SSL_ERROR_WANT_READ, 0, false⟩
  sslRead _ _ := .failed ⟨-1, none, .SSL_ERROR_WANT_READ, 0, false⟩
  sslWrite _ _ := .failed ⟨-1, none, .SSL_ERROR_WANT_WRITE, 0, false⟩
  sslSentShutdown _ _ := false
  sslShutdown _ _ := .sent

/-- A delegate that takes every frame and makes no calls. -/
def idleScript : Script where
  getReadFrame := none
  read _ _ _ := ([], none)
  connected _ := []
  error _ := []
  frameReturn := none

/-- Control codes are carried out one after the other. -/
theorem wp_cntlCodes_append {E : Fault → Prop} {Q : World Stream π → Prop} :
    ∀ (cs cs' : List Cntl) (w : World Stream π),
      wp E (cntlCodes env d (cs ++ cs')) (fun _ => Q) w ↔
        wp E (cntlCodes env d cs) (fun _ => wp E (cntlCodes env d cs') fun _ => Q) w
  | [], _, _ => Iff.rfl
  | c :: cs, cs', w => by
    have hrest (ok : Bool) (w : World Stream π) : wp E (do
          let rest ← cntlCodes env d (cs ++ cs')
          return ok && rest) (fun _ => Q) w ↔ wp E (do
          let rest ← cntlCodes env d cs
          return ok && rest) (fun _ => wp E (cntlCodes env d cs') fun _ => Q) w := by
      rw [wp_bind, wp_bind]
      exact wp_cntlCodes_append cs cs' w
    rw [List.cons_append, cntlCodes, cntlCodes, wp_bind, wp_bind]
    exact ⟨fun h => wp_mono h fun ok w' => (hrest ok w').mp,
      fun h => wp_mono h fun ok w' => (hrest ok w').mpr⟩

section Preserves

variable {env} {d} {allow} {E : Fault → Prop} {I : World Stream π → Prop}
  {R : World Stream π → World Stream π → Prop}

/-- Every callback keeps the invariant and the relation. -/
structure Delegate.Preserves (E : Fault → Prop) (I : World Stream π → Prop)
    (R : World Stream π → World Stream π → Prop) (d : Delegate π) : Prop where
  getReadFrame : ∀ g ∈ d.getReadFrame, Hoare.Preserves E I R g
  read : ∀ f, Hoare.Preserves E I R (d.read f)
  connected : Hoare.Preserves E I R d.connected
  error : Hoare.Preserves E I R d.error
  frameReturn : ∀ g ∈ d.frameReturn, ∀ f side, Hoare.Preserves E I R (g f side)

theorem preserves_ask {α : Type} {q : ℕ → α} (h : ∀ w, I w → I w.tick ∧ R w w.tick) :
    Preserves E I R (ask q) := h

variable [IsPreorder (World Stream π) R]

theorem cntlCodes_preserves : ∀ {cs : List Cntl},
    (∀ c ∈ cs, Hoare.Preserves E I R (cntlCode env d c)) →
      Hoare.Preserves E I R (cntlCodes env d cs)
  | [], _ => preserves_pure _
  | c :: cs, h => (h c (by simp)).bind fun _ =>
    (cntlCodes_preserves fun c hc => h c (List.mem_cons_of_mem _ hc)).bind fun _ => preserves_pure _

theorem Script.delegate_preserves {script : Script} {calls : List Call → StreamM π Unit}
    (htick : ∀ w, I w → I w.tick ∧ R w w.tick)
    (hlayout : ∀ w f data vecs vecPosition, I w → w.owner f = .user →
      I (w.setFrame f { w.heap f with data, vecs, vecPosition }) ∧
        R w (w.setFrame f { w.heap f with data, vecs, vecPosition }))
    (hcalls : ∀ cs, Preserves E I R (calls cs)) : (script.delegate calls).Preserves E I R where
  getReadFrame g hg := by
    obtain ⟨g, -, rfl⟩ := Option.mem_map.mp hg
    refine (preserves_ask htick).bind fun r => (hcalls r.1).bind fun _ =>
      preserves_get_bind fun w hw => ?_
    obtain ⟨cs, frame⟩ := r
    cases frame with
    | none => exact preserves_pure _ w hw
    | some frame =>
      obtain ⟨f, vecs, vecPosition⟩ := frame
      dsimp only
      rw [wp_ite]
      exact ⟨fun ho => hlayout w f (w.heap f).data vecs vecPosition hw ho,
        fun _ => preserves_pure _ w hw⟩
  read f := by
    refine preserves_get_bind fun w hw => ?_
    refine (preserves_ask htick).wp_bind hw fun r w hw _ => ?_
    obtain ⟨cs, refused⟩ := r
    refine (hcalls cs).wp_bind hw fun _ w hw _ => ?_
    cases refused with
    | none => exact preserves_pure _ w hw
    | some layout =>
      obtain ⟨vecs, vecPosition⟩ := layout
      rw [wp_bind, wp_get, wp_ite]
      refine ⟨fun ho => ?_, fun _ => preserves_pure _ w hw⟩
      exact hlayout w f _ vecs vecPosition hw ho
  connected := (preserves_ask htick).bind fun _ => hcalls _
  error := (preserves_ask htick).bind fun _ => hcalls _
  frameReturn g hg f side := by
    obtain ⟨g, -, rfl⟩ := Option.mem_map.mp hg
    exact (preserves_ask htick).bind fun _ => hcalls _

/-- What every call keeps is kept by a scripted delegate, whatever the depth of its callbacks. -/
theorem scripted_preserves {script : Script}
    (htick : ∀ w, I w → I w.tick ∧ R w w.tick)
    (hlayout : ∀ w f data vecs vecPosition, I w → w.owner f = .user →
      I (w.setFrame f { w.heap f with data, vecs, vecPosition }) ∧
        R w (w.setFrame f { w.heap f with data, vecs, vecPosition }))
    (hexec : ∀ d : Delegate π, d.Preserves E I R → ∀ c, Preserves E I R (Call.exec env d allow c))
    (n : ℕ) : (scripted env allow script n).Preserves E I R := by
  refine Script.delegate_preserves htick hlayout ?_
  induction n with
  | zero => exact fun _ => preserves_pure _
  | succ n ih =>
    exact fun _ => preserves_forM fun c _ =>
      hexec _ (Script.delegate_preserves htick hlayout ih) c

end Preserves

end Stream

end FrameTransporter
