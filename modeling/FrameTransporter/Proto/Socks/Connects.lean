import Mathlib.Data.List.Pairwise
import FrameTransporter.Proto.Socks.Replies
import FrameTransporter.Proto.Socks.Segmentation

/-! # How often a stream connects

A stream of SOCKS4 has one request. An authorized client of SOCKS5 may send another
request behind one that the connect delegate accepted, and it is connected again. The
bytes of the client and the answers of the delegate tell whether that happens.
-/

namespace FrameTransporter

open Hoare Intrusive

namespace Socks

open FrameTransporter.Stream

/-- The connect delegate accepts. -/
def Act.accepts : Act → Bool
  | .connect _ _ _ ok => ok
  | _ => false

/-- How often the connect delegate accepted. -/
def accepts (calls : List Call) : ℕ := (calls.map fun c => c.acts.countP Act.accepts).sum

/-- A call of the connect delegate, with its answer. -/
def Act.connection : Act → Option ((Char × List UInt8 × ℕ) × Bool)
  | .connect t h p ok => some ((t, h, p), ok)
  | _ => none

/-- The calls of the connect delegate, in order. -/
def connections (calls : List Call) : List ((Char × List UInt8 × ℕ) × Bool) :=
  calls.flatMap fun c => c.acts.filterMap Act.connection

/-- The connect delegate answers its call number `i` as `answer i` does. -/
def Answered (answer : ℕ → Answer) (calls : List Call) : Prop :=
  ∀ i t ok, (connections calls)[i]? = some (t, ok) → ok = answer i t.1 t.2.1 t.2.2

/-- The answer to the target number `i` is yes. -/
def Yes (answer : ℕ → Answer) (ts : List (Char × List UInt8 × ℕ)) (i : ℕ) : Prop :=
  ∃ t, ts[i]? = some t ∧ answer i t.1 t.2.1 t.2.2 = true

/-- The answer is yes to a target, and yes again to one behind it. -/
def YesAgain (answer : ℕ → Answer) (ts : List (Char × List UInt8 × ℕ)) : Prop :=
  ∃ i j, i < j ∧ Yes answer ts i ∧ Yes answer ts j

/-- The targets of the requests in the bytes of a client. -/
def requests (ATYP : UInt8) (bytes : List UInt8) : List (Char × List UInt8 × ℕ) :=
  ((Machine.init ATYP).run bytes).verdicts.filterMap Verdict.target

/-- The target of the request that the frame of the call holds, if it holds one. -/
def Call.asked (c : Call) : Option (Char × List UInt8 × ℕ) :=
  if c.frame.type = .endOfStream then none
  else match decision c.socks c.frame with
    | .ok (_, _, some v) => v.target
    | _ => none

section Lists

variable {α : Type} {p : α → Bool} {l : List α}

/-- At most one member is counted if no two are. -/
theorem countP_le_one_iff_pairwise : l.countP p ≤ 1 ↔ l.Pairwise fun a b => ¬(p a ∧ p b) := by
  induction l with
  | nil => simp
  | cons a l ih =>
    rw [List.pairwise_cons, ← ih, List.countP_cons]
    by_cases ha : p a = true
    · have hzero : l.countP p = 0 ↔ ∀ b ∈ l, ¬(p a ∧ p b) := by
        simp [List.countP_eq_zero, ha]
      rw [if_pos ha, ← hzero]
      omega
    · simp [ha]

theorem countP_le_one_iff : l.countP p ≤ 1 ↔
    ¬∃ (i j : ℕ) (a b : α), i < j ∧ l[i]? = some a ∧ l[j]? = some b ∧ p a ∧ p b := by
  rw [countP_le_one_iff_pairwise, List.pairwise_iff_getElem]
  constructor
  · rintro h ⟨i, j, a, b, hij, ha, hb, hpa, hpb⟩
    obtain ⟨hi, rfl⟩ := List.getElem?_eq_some_iff.mp ha
    obtain ⟨hj, rfl⟩ := List.getElem?_eq_some_iff.mp hb
    exact h i j hi hj hij ⟨hpa, hpb⟩
  · rintro h i j hi hj hij ⟨hpa, hpb⟩
    exact h ⟨i, j, _, _, hij, List.getElem?_eq_getElem hi, List.getElem?_eq_getElem hj, hpa, hpb⟩

end Lists

section Calls

variable {A : Answers} {answer : ℕ → Answer} {c : Call} {calls : List Call}

theorem accepts_eq_countP : accepts calls = (connections calls).countP (·.2) := by
  have hacts (acts : List Act) :
      acts.countP Act.accepts = (acts.filterMap Act.connection).countP (·.2) := by
    induction acts with
    | nil => rfl
    | cons a acts ih =>
      cases a with
      | connect t h p ok =>
        have hsome : Act.connection (.connect t h p ok) = some ((t, h, p), ok) := rfl
        rw [List.countP_cons, ih, List.filterMap_cons_some hsome, List.countP_cons]
        rfl
      | write | frameReturn | cntl =>
        rw [List.countP_cons, ih, List.filterMap_cons_none rfl]
        rfl
  rw [accepts, connections, List.countP_flatMap]
  exact congrArg List.sum (List.map_congr_left fun c _ => hacts c.acts)

theorem map_connections : (connections calls).map Prod.fst = targets calls := by
  have hact : (fun a => (Act.connection a).map Prod.fst) = Act.target := by
    funext a
    cases a <;> rfl
  simp only [connections, targets, List.map_flatMap, List.map_filterMap, hact]

/-- The answers tell whether the connect delegate accepted more than once. -/
theorem Answered.not_yesAgain_iff (h : Answered answer calls) :
    ¬YesAgain answer (targets calls) ↔ accepts calls ≤ 1 := by
  have hyes (i : ℕ) : (∃ a, (connections calls)[i]? = some a ∧ a.2 = true) ↔
      Yes answer (targets calls) i := by
    rw [Yes, ← map_connections, List.getElem?_map]
    constructor
    · rintro ⟨⟨t, ok⟩, ha, rfl⟩
      exact ⟨t, by rw [ha]; rfl, (h i t true ha).symm⟩
    · rintro ⟨t, ht, hok⟩
      obtain ⟨⟨_, ok⟩, ha, rfl⟩ := Option.map_eq_some_iff.mp ht
      exact ⟨_, ha, (h i _ ok ha).trans hok⟩
  rw [accepts_eq_countP, countP_le_one_iff, not_iff_not]
  constructor
  · rintro ⟨i, j, hij, hi, hj⟩
    obtain ⟨a, ha, hpa⟩ := (hyes i).mpr hi
    obtain ⟨b, hb, hpb⟩ := (hyes j).mpr hj
    exact ⟨i, j, a, b, hij, ha, hb, hpa, hpb⟩
  · rintro ⟨i, j, a, b, hij, ha, hb, hpa, hpb⟩
    exact ⟨i, j, hij, (hyes i).mp ⟨a, ha, hpa⟩, (hyes j).mp ⟨b, hb, hpb⟩⟩

/-- The connect delegate is called with the target that the frame asks for. -/
theorem Ran.asked_eq (h : Ran A c) : c.acts.filterMap Act.target = c.asked.toList := by
  cases h with
  | ended type _ acts =>
    rw [acts, Call.asked, if_pos type]
    split <;> rfl
  | more type decision _ acts =>
    rw [acts, Call.asked, if_neg type, decision]
    rfl
  | done type decision _ acts =>
    rw [acts.targets, Call.asked, if_neg type, decision]

theorem targets_eq_asked (h : ∀ c ∈ calls, Ran A c) :
    targets calls = calls.filterMap Call.asked := by
  induction calls with
  | nil => rfl
  | cons c calls ih =>
    obtain ⟨hc, hcalls⟩ := List.forall_mem_cons.mp h
    have hcons : targets (c :: calls) = c.acts.filterMap Act.target ++ targets calls := rfl
    rw [hcons, hc.asked_eq, ih hcalls, List.filterMap_cons]
    cases c.asked <;> rfl

end Calls

section Runs

variable {A : Answers} {g : Bool} {ATYP : UInt8} {w : World Stream Session}

/-- A request behind another one is a request of SOCKS5. -/
theorem Reaches.version_asked (h : Reaches A g ATYP w) {pre post : List Call} {c d : Call}
    (hs : w.proto.calls = pre ++ d :: post) (hc : c ∈ pre) (hca : c.asked ≠ none)
    (hda : d.asked ≠ none) : d.socks.VN = 5 := by
  have hasks : ∀ c ∈ w.proto.calls, c.asked ≠ none →
      c.frame.type ≠ .endOfStream ∧ Asks c.socks c.frame ∧ c.taken = true := by
    intro c hc hask
    unfold Call.asked at hask
    split_ifs at hask with ht
    · exact absurd rfl hask
    · cases h.ran hc with
      | ended type => exact absurd type ht
      | more _ decision =>
        rw [decision] at hask
        exact absurd rfl hask
      | @done _ _ v _ decision taken =>
        rw [decision] at hask
        cases v with
        | request t => exact ⟨ht, ((decides decision).request t rfl).1, taken⟩
        | select | close => exact absurd rfl hask
  obtain ⟨-, hasksc, htaken⟩ := hasks c (hs ▸ List.mem_append_left _ hc) hca
  obtain ⟨ht, ha, -⟩ := hasks d (hs ▸ by simp) hda
  refine ha.version.resolve_left fun h4 => ?_
  have hlim : 1 < d.frame.vecLimit := by
    rcases ha with ⟨-, ⟨hl, -⟩ | ⟨hl, -⟩⟩ | ⟨-, -, hl⟩ <;> rw [hl] <;> decide
  have h0 := h.once hs ht (.inl h4) hlim c hc htaken
  rcases hasksc.version with h | h <;> rw [h0] at h <;> cases h

/-- The connect delegate accepts at most once exactly when its answer is not yes again to a request
that a frame holds behind one with the answer yes. As long as reading goes on, these are the
requests in the bytes of the client. -/
theorem accepts_le_one_iff {answer : ℕ → Answer} (h : Reaches A g ATYP w)
    (ha : Answered answer w.proto.calls) :
    (accepts w.proto.calls ≤ 1 ↔ ¬YesAgain answer (w.proto.calls.filterMap Call.asked)) ∧
      ∀ bytes, g = true → Snug ATYP (bytes.map some) → Delivered bytes w →
        (accepts w.proto.calls ≤ 1 ↔ ¬YesAgain answer (requests ATYP bytes)) := by
  refine ⟨?_, ?_⟩
  · rw [← ha.not_yesAgain_iff, targets_eq_asked fun c hc => h.ran hc]
  · rintro bytes rfl hs hd
    rw [← ha.not_yesAgain_iff, h.targets_eq hs hd]
    rfl

/-- A client of SOCKS5 that asks for a host. -/
def asks : List (List UInt8) :=
  [[5], [1], [0], [5], [1, 0, 1], [10, 0, 0, 1], [0, 80]]

/-- The target that it asks for. -/
def asksTarget : Char × List UInt8 × ℕ := ('4', [49, 48, 46, 48, 46, 48, 46, 49], 80)

/-- A delegate that accepts its first call only. -/
def firstOnly : ℕ → Answer := fun i _ _ _ => i = 0

theorem accepts_le_one_iff_asks : ∃ w, Reaches anyAnswer true 0 w ∧ accepts w.proto.calls = 1 ∧
    (accepts w.proto.calls ≤ 1 ↔ ¬YesAgain firstOnly (requests 0 asks.flatten)) := by
  obtain ⟨w, hw, ho⟩ := sends_observe anyAnswer (fun _ _ _ _ => true) (fun _ _ _ _ => trivial)
    asks (fun _ _ => 0)
    (fun w => decide (accepts w.proto.calls = 1 ∧
      connections w.proto.calls = [(asksTarget, true)] ∧
      inputs w.trace = asks.flatten.map some)) true (by decide +kernel)
  obtain ⟨hone, hconnections, hin⟩ := of_decide_eq_true ho
  have ha : Answered firstOnly w.proto.calls := by
    intro i t ok hi
    rw [hconnections] at hi
    cases i with
    | zero =>
      cases hi
      rfl
    | succ i => cases hi
  exact ⟨w, hw, hone, (accepts_le_one_iff hw ha).2 asks.flatten rfl
    (snug_iff.mpr (by decide +kernel)) ⟨_, [], (List.append_nil _).symm, hin, .inl rfl⟩⟩

/-- A client that asks again is connected again. -/
theorem not_accepts_le_one_all : ¬∀ (A : Answers) (g : Bool) (ATYP : UInt8)
    (w : World Stream Session), Reaches A g ATYP w → accepts w.proto.calls ≤ 1 := by
  intro h
  obtain ⟨w, hw, htwo⟩ := sends_observe anyAnswer (fun _ _ _ _ => true) (fun _ _ _ _ => trivial)
    (asks ++ [[5], [1, 0, 1], [10, 0, 0, 2], [0, 80]]) (fun _ _ => 0)
    (fun w => accepts w.proto.calls) 2 (by decide +kernel)
  have hle := h _ _ _ w hw
  rw [htwo] at hle
  exact absurd hle (by decide)

end Runs

end Socks

end FrameTransporter
