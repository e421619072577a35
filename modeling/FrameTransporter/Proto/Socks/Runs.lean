import Mathlib.Logic.Relation
import FrameTransporter.Proto.Socks.Simulation

/-! # Runs of a SOCKS stream

A stream is opened in its default mode with the SOCKS delegate. Read events and aborts
take place in any order, with any answers of the system, of the pool and of the
connect delegate. Whatever else happens leaves the protocol and the read frame alone.
-/

namespace FrameTransporter

open Hoare Intrusive

namespace Socks

open FrameTransporter.Stream ReadEvent

/-- What happens beside reading: writes, other events and control calls. Under `g` nobody starts
reading again after the delegate stopped it. -/
structure Beside (g : Bool) (w w' : World Stream Session) : Prop where
  proto : w'.proto = w.proto
  readFrame : w'.socket.readFrame = w.socket.readFrame
  frame : ∀ f, w.socket.readFrame = some f → w'.heap f = w.heap f
  readPartial : w'.socket.readPartial = w.socket.readPartial
  inputs : inputs w'.trace = inputs w.trace
  capacity : ∀ f, (w'.heap f).capacity = (w.heap f).capacity
  wantRead : READ_WANT_READ ∈ w'.socket.readEvents →
    READ_WANT_READ ∈ w.socket.readEvents ∨ Going g w.proto

/-- A step of a run. Under `g` a read event needs the interest in reading. -/
inductive Step (A : Answers) (g : Bool) (w w' : World Stream Session) : Prop
  | read {env : Env} {connect : Connect} (answers : ∀ t h p n, A t h p (connect t h p n))
    (wantRead : g = true → READ_WANT_READ ∈ w.socket.readEvents)
    (run : onReadEvent env (delegate env connect) w = .ok ((), w'))
  | abort {env : Env} {connect : Connect} (answers : ∀ t h p n, A t h p (connect t h p n))
    {ok : Bool} (run : cntlAbort env (delegate env connect) w = .ok (ok, w'))
  | beside (aside : Beside g w w')

/-- The stream when it is opened, with the delegate and any bytes in the frames of the pool. -/
def accepted (o : Opening) (ATYP : UInt8) (data : FrameId → ℕ → UInt8) : World Stream Session :=
  World.init (opened o) ⟨Socks.init ATYP, [], []⟩ data

/-- The states of all runs. -/
def Reaches (A : Answers) (g : Bool) (ATYP : UInt8) (w : World Stream Session) : Prop :=
  ∃ o data, Relation.ReflTransGen (Step A g) (accepted o ATYP data) w

/-- The connect delegate may answer anything. -/
def anyAnswer : Answers := fun _ _ _ _ => True

section Runs

variable {A : Answers} {g : Bool} {ATYP : UInt8} {w w' : World Stream Session}

theorem feeds_accepted (o : Opening) (data : FrameId → ℕ → UInt8) :
    Feeds (Going g) (Sim A g ATYP) (accepted o ATYP data) where
  sizes _ := rfl
  whole := by cases o <;> rfl
  going _ _ hc := by
    obtain ⟨c, hc, -⟩ := hc
    exact List.not_mem_nil hc
  known := by
    have hf : (accepted o ATYP data).socket.readFrame = none := by cases o <;> rfl
    rw [hf]
    refine ⟨fun c hc => absurd hc List.not_mem_nil,
      fun pre c post hs => absurd hs.symm (List.append_ne_nil_of_right_ne_nil _ (by simp)),
      fun _ _ _ c hc => absurd hc List.not_mem_nil, .nil,
      fun pre c post hs => absurd hs.symm (List.append_ne_nil_of_right_ne_nil _ (by simp)),
      by rintro _ ⟨⟩,
      fun _ => ⟨.start (Socks.init ATYP), Parser.good_start fun _ => ⟨rfl, rfl⟩, rfl, .start rfl,
        List.nil_suffix, fun _ _ => ⟨[], [], rfl, rfl, .nil⟩⟩⟩

/-- What is known of the protocol, of what came in and of the read frame stays. -/
theorem Beside.feeds {J : Session → List (Option UInt8) → Option Frame → Prop}
    (h : Beside g w w') (hw : Feeds (Going g) J w) : Feeds (Going g) J w' where
  sizes f := (h.capacity f).trans (hw.sizes f)
  whole := h.readPartial.trans hw.whole
  going hr := by
    rw [h.proto]
    exact (h.wantRead hr).elim hw.going id
  known := by
    have hf : w'.socket.readFrame.map w'.heap = w.socket.readFrame.map w.heap := by
      rw [h.readFrame]
      cases hf : w.socket.readFrame with
      | none => rfl
      | some f => rw [Option.map_some, Option.map_some, h.frame f hf]
    rw [h.proto, h.inputs, hf]
    exact hw.known

/-- Every step keeps what the delegate keeps. -/
theorem Step.feeds {J : Session → List (Option UInt8) → Option Frame → Prop}
    (hd : ∀ (env : Env) (connect : Connect), (∀ t h p n, A t h p (connect t h p n)) →
      Feeder (Going g) J (delegate env connect))
    (h : Step A g w w') (hw : Feeds (Going g) J w) : Feeds (Going g) J w' := by
  cases h with
  | read hA hg hrun =>
    have hgoing : Going g w.proto := fun h1 => hw.going (hg h1) h1
    exact wp_ok (Q := fun _ => Feeds (Going g) J) (onReadEvent_feeds (hd _ _ hA) hw hgoing) hrun
  | abort hA hrun =>
    exact wp_ok (Q := fun _ => Feeds (Going g) J) (cntlAbort_feeds (hd _ _ hA) hw) hrun
  | beside h => exact h.feeds hw

/-- So does every run. -/
theorem Reaches.keeps {J : Session → List (Option UInt8) → Option Frame → Prop}
    (hd : ∀ (env : Env) (connect : Connect), (∀ t h p n, A t h p (connect t h p n)) →
      Feeder (Going g) J (delegate env connect))
    (h0 : ∀ o data, Feeds (Going g) J (accepted o ATYP data)) (h : Reaches A g ATYP w) :
    Feeds (Going g) J w := by
  obtain ⟨o, data, h⟩ := h
  induction h with
  | refl => exact h0 o data
  | tail _ hstep ih => exact hstep.feeds hd ih

theorem Reaches.feeds (h : Reaches A g ATYP w) : Feeds (Going g) (Sim A g ATYP) w :=
  h.keeps (fun _ _ hA => feeder hA) feeds_accepted

theorem Reaches.step (h : Reaches A g ATYP w) (hs : Step A g w w') : Reaches A g ATYP w' := by
  obtain ⟨o, data, h⟩ := h
  exact ⟨o, data, h.tail hs⟩

theorem Reaches.ran (h : Reaches A g ATYP w) {c : Call} (hc : c ∈ w.proto.calls) : Ran A c :=
  h.feeds.known.ran c hc

/-- What is known of a call, if the calls before it had room. -/
theorem Reaches.seen (h : Reaches A g ATYP w) {pre post : List Call} {c : Call}
    (hs : w.proto.calls = pre ++ c :: post) (hr : ∀ a ∈ pre, a.Roomy) :
    Seen (inputs w.trace) c :=
  h.feeds.known.seen pre c post hs hr

theorem Reaches.once (h : Reaches A g ATYP w) {pre post : List Call} {c : Call}
    (hs : w.proto.calls = pre ++ c :: post) (ht : c.frame.type ≠ .endOfStream) :
    Once pre c.socks c.frame.vecLimit :=
  h.feeds.known.once pre c post hs ht

theorem Reaches.threaded (h : Reaches A g ATYP w) : Threaded ATYP w.proto.calls w.proto.socks :=
  h.feeds.known.threaded

end Runs

section Clients

/-- A system that delivers these bytes, and a pool with a new frame at any time. -/
def clientEnv (bytes : List UInt8) : Env :=
  { idleEnv with
    framePool := fun n => some ⟨0, n⟩
    sockEstMaxReadLoops := 1
    recv := fun _ _ => .data bytes }

/-- The stream after a client sent its bytes piece by piece, none if reading aborts or stops. -/
def sends (connect : Connect) :
    List (List UInt8) → World Stream Session → Option (World Stream Session)
  | [], w => some w
  | bytes :: rest, w =>
    if READ_WANT_READ ∈ w.socket.readEvents then
      match onReadEvent (clientEnv bytes) (delegate (clientEnv bytes) connect) w with
      | .ok (_, w') => sends connect rest w'
      | .error _ => none
    else none

variable {A : Answers} {g : Bool} {ATYP : UInt8} {connect : Connect} {w w' : World Stream Session}

theorem Reaches.sends (h : Reaches A g ATYP w) (hA : ∀ t h p n, A t h p (connect t h p n))
    {pieces : List (List UInt8)} (hs : Socks.sends connect pieces w = some w') :
    Reaches A g ATYP w' := by
  induction pieces generalizing w with
  | nil =>
    cases hs
    exact h
  | cons bytes rest ih =>
    unfold Socks.sends at hs
    split at hs
    · next hr =>
      split at hs
      · next hrun => exact ih (h.step (.read hA (fun _ => hr) hrun)) hs
      · cases hs
    · cases hs

/-- A client of a new stream reaches what it is seen to reach. -/
theorem sends_observe {β : Type} (A : Answers) (connect : Connect)
    (hA : ∀ t h p n, A t h p (connect t h p n)) (pieces : List (List UInt8))
    (data : FrameId → ℕ → UInt8) (f : World Stream Session → β) (b : β)
    (h : (Socks.sends connect pieces (accepted .accept 0 data)).map f = some b) :
    ∃ w, Reaches A true 0 w ∧ f w = b := by
  obtain ⟨w, hs, hf⟩ := Option.map_eq_some_iff.mp h
  exact ⟨w, Reaches.sends ⟨.accept, data, .refl⟩ hA hs, hf⟩

end Clients

end Socks

end FrameTransporter
