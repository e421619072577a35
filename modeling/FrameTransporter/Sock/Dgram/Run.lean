import FrameTransporter.Sock.Dgram.Read

/-! # Runs of a datagram socket

As for streams, a run is a list of calls of the application and of watchers that
fire while they are active, and the delegate makes calls of its own in each
callback, up to any depth. A run ends with the socket in use, or finalised.
-/

namespace FrameTransporter

open Hoare

namespace Dgram

/-- What the application, or the delegate in a callback, does with a socket and with frames. -/
inductive Call
  | write (f : FrameId)
  | cntl (codes : Finset Cntl)
  | bind
  | connect
  | borrow (type : FrameType)
  | frameReturn (f : FrameId)
  | fill (f : FrameId) (type : FrameType) (vecs : List Vec) (vecPosition : ℕ) (data : ℕ → UInt8)
    (msgControl : Bool)

/-- An event of a run. After an error the event loop stops the watchers first. -/
inductive Event
  | call (c : Call)
  | read
  | write
  | error

/-- The ownership contract: users touch only frames they hold, and leave no free frame. -/
def Call.Permitted {π : Type} (w : World Dgram π) : Call → Prop
  | .write f | .frameReturn f => w.owner f = .user
  | .borrow type => type ≠ .free
  | .fill f type .. => w.owner f = .user ∧ type ≠ .free
  | _ => True

instance {π : Type} (w : World Dgram π) : (c : Call) → Decidable (c.Permitted w)
  | .write f | .frameReturn f => inferInstanceAs (Decidable (w.owner f = .user))
  | .borrow type => inferInstanceAs (Decidable (type ≠ .free))
  | .fill f type .. => inferInstanceAs (Decidable (w.owner f = .user ∧ type ≠ .free))
  | .cntl _ | .bind | .connect => inferInstanceAs (Decidable True)

variable {π : Type} (env : Env) (d : Delegate π)

/-- `ft_dgram_write` of a frame; a frame that is not taken stays with the caller. -/
def Call.perform : Call → DgramM π Unit
  | .write f => do let _ ← Dgram.write env d f
  | .cntl codes => do let _ ← Dgram.cntl env d codes
  | .bind => do let _ ← dgramBind env
  | .connect => do let _ ← dgramConnect env
  | .borrow type => do let _ ← poolBorrow env.toContext type "application" 1
  | .frameReturn f => FrameTransporter.frameReturn env.toContext f
  | .fill f type vecs vecPosition data msgControl => do
    let x ← getFrame f
    setFrame f { x with type, vecs, vecPosition, data, msgControl }

variable (allow : World Dgram π → Event → Prop) [∀ w e, Decidable (allow w e)]

def Call.exec (c : Call) : DgramM π Unit := do
  let w ← get
  when (c.Permitted w ∧ allow w (.call c)) <| c.perform env d

def Event.exec : Event → DgramM π Unit
  | .call c => c.exec env d allow
  | .read => do
    let w ← get
    when (w.socket.readWatcher = true ∧ allow w .read) <| onRead env d
  | .write => do
    let w ← get
    when (w.socket.writeWatcher = true ∧ allow w .write) <| onWrite env d
  | .error => do
    let w ← get
    when ((w.socket.readWatcher = true ∨ w.socket.writeWatcher = true) ∧ allow w .error) do
      modifySocket fun s => { s with readWatcher := false, writeWatcher := false }
      onError env d

def run (events : List Event) : DgramM π Unit := forM events (Event.exec env d allow)

/-- The behaviour of a delegate: the calls it makes in each callback and its answers. A frame that
`get_read_frame` answers, or that `read` refuses, gets the listed vectors and cursor; the bytes of
a refused frame stay as they were. -/
structure Script where
  getReadFrame : Option (ℕ → List Call × Option (FrameId × List Vec × ℕ))
  read : Option (FrameId → Frame → ℕ → List Call × Option (List Vec × ℕ))
  fini : ℕ → List Call
  error : ℕ → List Call

/-- The delegate that follows a script, where `calls` makes the calls. -/
def Script.delegate (script : Script) (calls : List Call → DgramM π Unit) : Delegate π where
  getReadFrame := script.getReadFrame.map fun getReadFrame => do
    let (cs, frame) ← ask getReadFrame
    calls cs
    let w ← get
    match frame with
    | some (f, vecs, vecPosition) =>
      if w.owner f = .user then
        setFrame f { w.heap f with vecs, vecPosition }
        return some f
      else return none
    | none => return none
  read := script.read.map fun read f => do
    let x ← getFrame f
    let (cs, refused) ← ask (read f x)
    calls cs
    let w ← get
    match refused with
    | some (vecs, vecPosition) =>
      if w.owner f = .user then
        setFrame f { w.heap f with data := x.data, vecs, vecPosition }
        return false
      else return true
    | none => return true
  fini := do calls (← ask script.fini)
  error := do calls (← ask script.error)

/-- The calls of a callback, with callbacks nested at most `n` deep below it. -/
def nestedCalls (script : Script) : ℕ → List Call → DgramM π Unit
  | 0, _ => pure ()
  | n + 1, cs => forM cs (Call.exec env (script.delegate (nestedCalls script n)) allow)

/-- The delegate of a script whose callbacks are nested at most `n` deep. -/
def scripted (script : Script) (n : ℕ) : Delegate π :=
  script.delegate (nestedCalls env allow script n)

/-- A system that has no datagrams and takes none, and a pool without frames. -/
def idleEnv : Env where
  evNow _ := 0
  framePool _ := none
  availableFrames _ := none
  sockEstMaxReadLoops := 10
  bind _ _ := true
  connect _ _ := true
  recvmsg _ _ := .failed .EAGAIN
  sendmsg _ _ _ := .failed .EAGAIN

/-- A delegate that takes every frame and makes no calls. -/
def idleScript : Script where
  getReadFrame := none
  read := some fun _ _ _ => ([], none)
  fini _ := []
  error _ := []

section Preserves

variable {env} {d} {allow} {E : Fault → Prop} {I : World Dgram π → Prop}
  {R : World Dgram π → World Dgram π → Prop}

/-- Every callback keeps the invariant and the relation. -/
structure Delegate.Preserves (E : Fault → Prop) (I : World Dgram π → Prop)
    (R : World Dgram π → World Dgram π → Prop) (d : Delegate π) : Prop where
  getReadFrame : ∀ g ∈ d.getReadFrame, Hoare.Preserves E I R g
  read : ∀ g ∈ d.read, ∀ f, Hoare.Preserves E I R (g f)
  fini : Hoare.Preserves E I R d.fini
  error : Hoare.Preserves E I R d.error

variable [IsPreorder (World Dgram π) R]

theorem cntlCodes_preserves : ∀ {cs : List Cntl},
    (∀ c ∈ cs, Hoare.Preserves E I R (cntlCode env d c)) →
      Hoare.Preserves E I R (cntlCodes env d cs)
  | [], _ => preserves_pure _
  | c :: cs, h => (h c (by simp)).bind fun _ =>
    (cntlCodes_preserves fun c hc => h c (List.mem_cons_of_mem _ hc)).bind fun _ => preserves_pure _

theorem Script.delegate_preserves {script : Script} {calls : List Call → DgramM π Unit}
    (htick : ∀ w, I w → I w.tick ∧ R w w.tick)
    (hlayout : ∀ w f data vecs vecPosition, I w → w.owner f = .user →
      I (w.setFrame f { w.heap f with data, vecs, vecPosition }) ∧
        R w (w.setFrame f { w.heap f with data, vecs, vecPosition }))
    (hcalls : ∀ cs, Hoare.Preserves E I R (calls cs)) :
    (script.delegate calls).Preserves E I R := by
  have hask : ∀ {α : Type} (q : ℕ → α), Hoare.Preserves E I R (ask q) := fun _ => htick
  constructor
  case getReadFrame =>
    intro g hg
    obtain ⟨g, -, rfl⟩ := Option.mem_map.mp hg
    refine (hask g).bind fun r => (hcalls r.1).bind fun _ => preserves_get_bind fun w hw => ?_
    obtain ⟨cs, frame⟩ := r
    cases frame with
    | none => exact preserves_pure _ w hw
    | some frame =>
      obtain ⟨f, vecs, vecPosition⟩ := frame
      dsimp only
      rw [wp_ite]
      exact ⟨fun ho => hlayout w f (w.heap f).data vecs vecPosition hw ho,
        fun _ => preserves_pure _ w hw⟩
  case read =>
    intro g hg f
    obtain ⟨g, -, rfl⟩ := Option.mem_map.mp hg
    refine preserves_get_bind fun w hw => ?_
    refine (hask _).wp_bind hw fun r w hw _ => ?_
    obtain ⟨cs, refused⟩ := r
    refine (hcalls cs).wp_bind hw fun _ w hw _ => ?_
    cases refused with
    | none => exact preserves_pure _ w hw
    | some layout =>
      obtain ⟨vecs, vecPosition⟩ := layout
      rw [wp_bind, wp_get, wp_ite]
      refine ⟨fun ho => ?_, fun _ => preserves_pure _ w hw⟩
      exact hlayout w f _ vecs vecPosition hw ho
  case fini => exact (hask _).bind fun _ => hcalls _
  case error => exact (hask _).bind fun _ => hcalls _

/-- What every call keeps is kept by a scripted delegate, whatever the depth of its callbacks. -/
theorem scripted_preserves {script : Script}
    (htick : ∀ w, I w → I w.tick ∧ R w w.tick)
    (hlayout : ∀ w f data vecs vecPosition, I w → w.owner f = .user →
      I (w.setFrame f { w.heap f with data, vecs, vecPosition }) ∧
        R w (w.setFrame f { w.heap f with data, vecs, vecPosition }))
    (hexec : ∀ d : Delegate π, d.Preserves E I R →
      ∀ c, Hoare.Preserves E I R (Call.exec env d allow c))
    (n : ℕ) : (scripted env allow script n).Preserves E I R := by
  refine Script.delegate_preserves htick hlayout ?_
  induction n with
  | zero => exact fun _ => preserves_pure _
  | succ n ih =>
    exact fun _ => preserves_forM fun c _ =>
      hexec _ (Script.delegate_preserves htick hlayout ih) c

end Preserves

end Dgram

end FrameTransporter
