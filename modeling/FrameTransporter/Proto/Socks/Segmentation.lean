import FrameTransporter.Proto.Socks.Runs

/-! # Streams cut into pieces

The delegate acts on the bytes of the client and not on the pieces in which they come
in. Two streams that delivered the same bytes connected the same targets, wrote the
same replies and left the protocol in the same state.
-/

namespace FrameTransporter

open Hoare Intrusive

namespace Socks

open FrameTransporter.Stream ReadEvent

/-- The answer of a connect delegate that looks at its arguments only. -/
abbrev Answer := Char → List UInt8 → ℕ → Bool

/-- The connect delegate answers so. -/
def answering (answer : Answer) : Answers := fun t h p ok => ok = answer t h p

/-- What is connected. -/
def Act.target : Act → Option (Char × List UInt8 × ℕ)
  | .connect t h p _ => some (t, h, p)
  | _ => none

/-- What is written. -/
def Act.reply : Act → Option (List UInt8)
  | .write _ bytes _ => some bytes
  | _ => none

/-- The targets that the connect delegate is called with, in order. -/
def targets (calls : List Call) : List (Char × List UInt8 × ℕ) :=
  calls.flatMap fun c => c.acts.filterMap Act.target

/-- What is given to the stream to be written, in order. -/
def submitted (calls : List Call) : List (List UInt8) :=
  calls.flatMap fun c => c.acts.filterMap Act.reply

/-- The bytes came in, all of them or as many as were read before the delegate stopped reading. -/
def Delivered (bytes : List UInt8) (w : World Stream Session) : Prop :=
  ∃ received rest, bytes = received ++ rest ∧ inputs w.trace = received.map some ∧
    (rest = [] ∨ ∃ c ∈ w.proto.calls, c.Stops)

instance (p : Parser) : Decidable p.Fits := inferInstanceAs (Decidable (_ ≤ _))

theorem snug_iff {ATYP : UInt8} {bs : List UInt8} : Snug ATYP (bs.map some) ↔
    ∀ bs' ∈ bs.inits, ((Machine.init ATYP).run bs').parser.Fits := by
  refine forall_congr' fun bs' => ?_
  rw [List.mem_inits]
  refine imp_congr_left ⟨fun h => ?_, fun h => h.map some⟩
  obtain ⟨rest, hr⟩ := h
  obtain ⟨l, l', rfl, hl, -⟩ := List.map_eq_append_iff.mp hr.symm
  obtain rfl : l = bs' := List.map_injective_iff.mpr (Option.some_injective _) hl
  exact List.prefix_append ..

/-- The target that is connected for a verdict. -/
def Verdict.target : Verdict → Option (Char × List UInt8 × ℕ)
  | .request t => t
  | _ => none

/-- The reply to a verdict. -/
def Verdict.reply (answer : Answer) : Verdict → Option (List UInt8)
  | .request none => some errorResponse
  | .request (some (t, h, p)) => if answer t h p then none else some errorResponse
  | .select m => some [5, m]
  | .close => none

section Verdicts

variable {A : Answers} {answer : Answer} {f : FrameId} {writeOpen : Bool} {v : Verdict}
  {acts : List Act}

theorem Carried.targets (h : Carried A f writeOpen v acts) :
    acts.filterMap Act.target = v.target.toList := by
  cases h <;> rfl

theorem Carried.replies (h : Carried (answering answer) f writeOpen v acts) :
    acts.filterMap Act.reply = (v.reply answer).toList := by
  cases h with
  | connected ha =>
    have ha : _ = true := ha.symm
    rw [Verdict.reply, if_pos ha]
    rfl
  | declined ha =>
    have ha : _ = false := ha.symm
    rw [Verdict.reply, ha]
    rfl
  | refused | selected | rejected | closed => rfl

end Verdicts

section Calls

variable {A : Answers} {calls : List Call} {vs : List Verdict}

/-- A call whose frame is not taken does nothing. -/
theorem flatMap_taken {β : Type} (h : ∀ c ∈ calls, Ran A c) (f : Act → Option β) :
    calls.flatMap (fun c => c.acts.filterMap f) =
      (calls.filter fun c => c.taken).flatMap fun c => c.acts.filterMap f := by
  induction calls with
  | nil => rfl
  | cons c calls ih =>
    obtain ⟨hc, hcalls⟩ := List.forall_mem_cons.mp h
    rw [List.flatMap_cons, ih hcalls]
    cases hc with
    | more _ _ taken acts => rw [acts, List.filter_cons_of_neg (by simp [taken])]; rfl
    | ended _ taken | done _ _ taken => rw [List.filter_cons_of_pos taken, List.flatMap_cons]

/-- What the verdicts lead to is done in their order. -/
theorem flatMap_carried {β : Type} {f : Act → Option β} {r : Verdict → Option β}
    (hr : ∀ id writeOpen v acts, Carried A id writeOpen v acts → acts.filterMap f = (r v).toList)
    (h : List.Forall₂ (fun c v => Carried A c.id c.writeOpen v c.acts) calls vs) :
    calls.flatMap (fun c => c.acts.filterMap f) = vs.filterMap r := by
  induction h with
  | nil => rfl
  | @cons c v _ _ hc _ ih =>
    rw [List.flatMap_cons, ih, hr _ _ _ _ hc, List.filterMap_cons]
    cases r v <;> rfl

end Calls

section Runs

variable {A : Answers} {answer : Answer} {ATYP : UInt8} {bytes : List UInt8}
  {w w' : World Stream Session}

/-- The parser knows the protocol, and its verdicts were carried out. -/
theorem Reaches.followed (h : Reaches A true ATYP w) (hs : Snug ATYP (bytes.map some))
    (hd : Delivered bytes w) :
    w.proto.socks = ((Machine.init ATYP).run bytes).parser.socks ∧
      List.Forall₂ (fun c v => Carried A c.id c.writeOpen v c.acts)
        (w.proto.calls.filter fun c => c.taken) ((Machine.init ATYP).run bytes).verdicts := by
  obtain ⟨received, rest, rfl, hin, hrest⟩ := hd
  have hknown := h.feeds.known
  have hnone : none ∉ inputs w.trace := by simp [hin]
  have hsnug : Snug ATYP (inputs w.trace) := hs.mono (by
    rw [hin, List.map_append]
    exact List.prefix_append ..)
  obtain ⟨q, -, hsocks, -, -, hheard⟩ := hknown.tracks (hknown.roomy rfl hnone hsnug)
  obtain ⟨bs, vs, hbs, hrun, hc⟩ := hheard rfl hnone
  obtain rfl : received = bs :=
    List.map_injective_iff.mpr (Option.some_injective _) (hin.symm.trans hbs)
  have hall : (Machine.init ATYP).run (received ++ rest) = ⟨q, vs⟩ := by
    rw [Machine.run_append, hrun]
    rcases hrest with rfl | ⟨c, hmem, hstop⟩
    · rfl
    · -- the delegate stops reading for the verdict to close, and the parser reads nothing more
      refine Machine.run_closed ?_
      obtain ⟨codes, hcodes, hread⟩ := hstop
      have htaken : c ∈ w.proto.calls.filter fun c => c.taken := by
        refine List.mem_filter.mpr ⟨hmem, ?_⟩
        cases h.ran hmem with
        | more _ _ _ acts =>
          rw [acts] at hcodes
          cases hcodes
        | ended _ taken | done _ _ taken => exact taken
      obtain ⟨v, hv, hcar⟩ := mem_of_forall₂ hc.flip htaken
      obtain rfl := hcar.close_of_stop hcodes hread
      exact hv
  rw [hall]
  exact ⟨hsocks, hc⟩

/-- The parser knows what is connected. -/
theorem Reaches.targets_eq (h : Reaches A true ATYP w) (hs : Snug ATYP (bytes.map some))
    (hd : Delivered bytes w) : targets w.proto.calls =
      ((Machine.init ATYP).run bytes).verdicts.filterMap Verdict.target := by
  rw [targets, flatMap_taken h.feeds.known.ran, flatMap_carried _ (h.followed hs hd).2]
  exact fun _ _ _ _ => Carried.targets

/-- The parser and the answers determine what is written. -/
theorem Reaches.submitted_eq (h : Reaches (answering answer) true ATYP w)
    (hs : Snug ATYP (bytes.map some)) (hd : Delivered bytes w) : submitted w.proto.calls =
      ((Machine.init ATYP).run bytes).verdicts.filterMap (Verdict.reply answer) := by
  rw [submitted, flatMap_taken h.feeds.known.ran, flatMap_carried _ (h.followed hs hd).2]
  exact fun _ _ _ _ => Carried.replies

/-- Two streams that delivered the same bytes, each in pieces of its own, connected the same
targets, wrote the same replies and left the protocol in the same state. -/
theorem segmentation_independent (hs : Snug ATYP (bytes.map some))
    (h : Reaches (answering answer) true ATYP w) (hd : Delivered bytes w)
    (h' : Reaches (answering answer) true ATYP w') (hd' : Delivered bytes w') :
    targets w.proto.calls = targets w'.proto.calls ∧
      submitted w.proto.calls = submitted w'.proto.calls ∧ w.proto.socks = w'.proto.socks := by
  rw [h.targets_eq hs hd, h'.targets_eq hs hd', h.submitted_eq hs hd, h'.submitted_eq hs hd',
    (h.followed hs hd).1, (h'.followed hs hd').1]
  exact ⟨rfl, rfl, rfl⟩

/-- A client that asks for a host, field by field and byte by byte. -/
theorem segmentation_independent_bytewise : ∃ w w',
    Delivered [5, 1, 0, 5, 1, 0, 1, 10, 0, 0, 1, 0, 80] w ∧
      Delivered [5, 1, 0, 5, 1, 0, 1, 10, 0, 0, 1, 0, 80] w' ∧
      targets w.proto.calls = targets w'.proto.calls ∧
      submitted w.proto.calls = submitted w'.proto.calls ∧ w.proto.socks = w'.proto.socks := by
  obtain ⟨w, hw, hin⟩ := sends_observe (answering fun _ _ _ => true) (fun _ _ _ _ => true)
    (fun _ _ _ _ => rfl) [[5], [1], [0], [5], [1, 0, 1], [10, 0, 0, 1], [0, 80]] (fun _ _ => 0)
    (fun w => inputs w.trace) ([5, 1, 0, 5, 1, 0, 1, 10, 0, 0, 1, 0, 80].map some)
    (by decide +kernel)
  obtain ⟨w', hw', hin'⟩ := sends_observe (answering fun _ _ _ => true) (fun _ _ _ _ => true)
    (fun _ _ _ _ => rfl)
    [[5], [1], [0], [5], [1], [0], [1], [10], [0], [0], [1], [0], [80]] (fun _ _ => 0)
    (fun w => inputs w.trace) ([5, 1, 0, 5, 1, 0, 1, 10, 0, 0, 1, 0, 80].map some)
    (by decide +kernel)
  have hd : Delivered _ w := ⟨_, [], (List.append_nil _).symm, hin, .inl rfl⟩
  have hd' : Delivered _ w' := ⟨_, [], (List.append_nil _).symm, hin', .inl rfl⟩
  exact ⟨w, w', hd, hd',
    segmentation_independent (snug_iff.mpr (by decide +kernel)) hw hd hw' hd'⟩

end Runs

end Socks

end FrameTransporter
