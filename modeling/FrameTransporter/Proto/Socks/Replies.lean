import FrameTransporter.Proto.Socks.Gate

/-! # Replies and frames

Each message ends with its frame given back, or with a reply in the same frame. The
reply is lost when the write side is closed, and the frame with it. A refused
request is answered as in SOCKS4, whatever the version.
-/

namespace FrameTransporter

open Hoare Intrusive

namespace Socks

open FrameTransporter.Stream

section Verdicts

variable {this : Socks} {x : Frame}

theorem vecAt_of_lt {i : ℕ} (h : i < x.vecLimit) : ∃ v, vecAt x i = .ok v := by
  rw [vecAt, List.getElem?_eq_getElem h]
  exact ⟨_, rfl⟩

/-- What is taken for a request leads to an answer. -/
theorem Asks.decision {r : Socks × Frame × Option Verdict} (h : Asks this x)
    (hd : decision this x = .ok r) : ∃ t, r.2.2 = some (.request t) := by
  have hread : ∃ this', onRead this x = .ok (this', x, .request) := by
    rcases h with ⟨h4, ⟨hl, ha, v, hv, h0⟩ | ⟨hl, ha, v, hv, h0⟩⟩ | ⟨h5, ha, hl⟩
    · exact ⟨this, by rw [onRead_userid h4 hl hv, if_pos h0, if_neg ha]⟩
    · exact ⟨this, by rw [onRead_host h4 ha hl hv, if_pos h0]⟩
    · obtain ⟨v, hv⟩ := vecAt_of_lt (x := x) (i := 3) (hl ▸ by decide)
      exact ⟨_, onRead_port ⟨h5, ha⟩ hl hv⟩
  obtain ⟨this', hread⟩ := hread
  unfold Socks.decision at hd
  rw [hread] at hd
  obtain ⟨_, h, hd⟩ := bind_ok hd
  cases h
  dsimp only at hd
  split_ifs at hd
  · cases hd
    exact ⟨_, rfl⟩
  · obtain ⟨_, -, hd⟩ := bind_ok hd
    cases hd
    exact ⟨_, rfl⟩

/-- A method is selected for every greeting. -/
theorem decision_greeting {r : Socks × Frame × Option Verdict} (h : Admits this x .select)
    (hd : decision this x = .ok r) : ∃ m, r.2.2 = some (.select m) := by
  obtain ⟨hg, hl⟩ := h
  unfold Socks.decision at hd
  rw [onRead_methods hg hl] at hd
  obtain ⟨_, h, hd⟩ := bind_ok hd
  cases h
  obtain ⟨v, -, hd⟩ := bind_ok hd
  split_ifs at hd <;> cases hd <;> exact ⟨_, rfl⟩

end Verdicts

/-- The connect delegate declines. -/
def Call.Declines (c : Call) : Prop := ∃ t h p, Act.connect t h p false ∈ c.acts

/-- A request that is no CONNECT, that names no host or that the connect delegate declines. -/
def Call.Refuses (c : Call) : Prop :=
  Asks c.socks c.frame ∧ (¬Named c.socks c.frame ∨ c.Declines)

/-- The call owes the client a reply, to a greeting or to a request that is refused. -/
def Call.Replies (c : Call) : Prop :=
  c.frame.type ≠ .endOfStream ∧ (Admits c.socks c.frame .select ∨ c.Refuses)

/-- A verdict that is carried out with a reply. -/
def Call.Owes (c : Call) : Verdict → Prop
  | .request t => t = none ∨ c.Declines
  | .select _ => True
  | .close => False

/-- How often the frame of the call was given back or accepted by the stream. -/
def Call.disposals (c : Call) : ℕ := c.acts.countP fun
  | .frameReturn f => f = c.id
  | .write f _ accepted => f = c.id ∧ accepted = true
  | _ => false

/-- A frame that is taken is disposed of once, and one that is refused is not. -/
def Call.Disposed (c : Call) : Prop := c.disposals = if c.taken then 1 else 0

/-- A reply in the format of a version, for a request that failed or did not. -/
inductive Reply (failed : Bool) : UInt8 → List UInt8 → Prop
  | socks4 {rest : List UInt8} (length : rest.length = 6) :
    Reply failed 4 (0 :: (if failed then 91 else 90) :: rest)
  | socks5 {rep t : UInt8} {addr port : List UInt8} (result : rep ≠ 0 ↔ failed = true)
    (address : Address t addr) (length : port.length = 2) :
    Reply failed 5 (5 :: rep :: 0 :: t :: addr ++ port)

/-- A reply of the call to a request. -/
def Call.Answered (c : Call) (bytes : List UInt8) : Prop :=
  c.frame.type ≠ .endOfStream ∧ Asks c.socks c.frame ∧ ∃ f ok, Act.write f bytes ok ∈ c.acts

section Calls

variable {A : Answers} {c : Call} {this : Socks} {x : Frame} {v : Verdict}

/-- Whether a reply is due shows in the verdict. -/
theorem replies_iff (ht : c.frame.type ≠ .endOfStream)
    (hd : decision c.socks c.frame = .ok (this, x, some v)) : c.Replies ↔ c.Owes v := by
  have hdec := decides hd
  constructor
  · rintro ⟨-, hg | ⟨ha, hr⟩⟩
    · obtain ⟨m, hm⟩ := decision_greeting hg hd
      cases hm
      trivial
    · obtain ⟨t, hv⟩ := ha.decision hd
      cases hv
      refine hr.imp_left fun hn => ?_
      rw [← (hdec.request t rfl).2] at hn
      simpa using hn
  · intro h
    refine ⟨ht, ?_⟩
    cases v with
    | request t =>
      obtain ⟨ha, hn⟩ := hdec.request t rfl
      refine .inr ⟨ha, h.imp_left fun h => ?_⟩
      rw [← hn, h]
      simp
    | select m => exact .inl (hdec.select m rfl).1
    | close => exact h.elim

theorem not_replies_more (hd : decision c.socks c.frame = .ok (this, x, none)) : ¬c.Replies := by
  rintro ⟨-, hg | ⟨ha, -⟩⟩
  · obtain ⟨m, hm⟩ := decision_greeting hg hd
    cases hm
  · obtain ⟨t, hv⟩ := ha.decision hd
    cases hv

/-- A frame is lost exactly when a reply is due and the write side is closed. -/
theorem Ran.disposed_iff_writeOpen (h : Ran A c) :
    c.Disposed ↔ (c.Replies → c.writeOpen = true) := by
  unfold Call.Disposed Call.disposals
  cases h with
  | ended type taken acts =>
    have hr : ¬c.Replies := fun hr => hr.1 type
    rw [acts, taken]
    split <;> simp [hr]
  | more _ decision taken acts =>
    simp [acts, taken, not_replies_more decision]
  | done type decision taken acts =>
    rw [replies_iff type decision, taken]
    have hdec : c.Declines ↔ ∃ t h p, Act.connect t h p false ∈ c.acts := Iff.rfl
    generalize c.acts = acts' at acts hdec
    cases acts with
    | refused | declined | selected | rejected =>
      cases c.writeOpen <;> simp [Call.Owes, hdec, refusal]
    | connected | closed => simp [Call.Owes, hdec]

theorem reply_errorResponse (h : c.socks.VN = 4 ∨ c.socks.VN = 5) :
    Reply true c.socks.VN errorResponse ↔ c.socks.VN ≠ 5 := by
  rcases h with h | h <;> rw [h]
  · exact iff_of_true (.socks4 rfl) (by decide)
  · refine iff_of_false (fun hr => ?_) (not_not_intro rfl)
    generalize hb : errorResponse = bytes at hr
    cases hr
    simp [errorResponse] at hb

/-- The reply to a request is in the format of the version unless it is a refusal of SOCKS5. -/
theorem Ran.reply_iff (h : Ran A c) (ht : c.frame.type ≠ .endOfStream) :
    (∀ bytes, c.Answered bytes → Reply true c.socks.VN bytes) ↔
      ¬(c.socks.VN = 5 ∧ c.Refuses) := by
  cases h with
  | ended type => exact absurd type ht
  | more _ decision _ acts =>
    refine iff_of_true (fun bytes hb => ?_) fun hr => ?_
    · obtain ⟨-, -, f, ok, hmem⟩ := hb
      rw [acts] at hmem
      cases hmem
    · exact not_replies_more decision ⟨ht, .inr hr.2⟩
  | @done this x v _ decision _ acts =>
    by_cases ha : Asks c.socks c.frame
    · obtain ⟨t, hv⟩ := ha.decision decision
      cases hv
      have hrefuses : c.Refuses ↔ t = none ∨ c.Declines := by
        change _ ↔ c.Owes (.request t)
        rw [← replies_iff ht decision, Call.Replies]
        refine ⟨fun hr => ⟨ht, .inr hr⟩, ?_⟩
        rintro ⟨-, hr⟩
        refine hr.resolve_left fun hg => ?_
        obtain ⟨m, hm⟩ := decision_greeting hg decision
        cases hm
      have hwrites : ∀ bytes, (∃ f ok, Act.write f bytes ok ∈ c.acts) ↔
          bytes = errorResponse ∧ (t = none ∨ c.Declines) := by
        intro bytes
        unfold Call.Declines
        generalize c.acts = acts' at acts
        cases acts <;> simp [refusal]
      rw [hrefuses, not_and']
      simp only [Call.Answered, ht, ha, hwrites, ne_eq, not_false_eq_true, true_and, and_imp,
        forall_eq, reply_errorResponse ha.version]
    · exact iff_of_true (fun bytes hb => absurd hb.2.1 ha) fun hr => ha hr.2.1

end Calls

section Final

variable {w : World Stream Session} {env : Env}

theorem ofInt_eq_zero {reply : ℤ} : UInt8.ofInt reply = 0 ↔ 256 ∣ reply := by
  rw [← UInt8.toNat_inj, UInt8.ofInt, UInt8.toNat_ofNat']
  change (reply % 2 ^ 8).toNat % 2 ^ 8 = 0 ↔ _
  omega

/-- The format of the final response. -/
theorem reply_finalResponse {this : Socks} {reply : ℤ} {bytes : List UInt8}
    (h : finalResponse this reply = some bytes) :
    Reply (reply ≠ 0) this.VN bytes ↔ ¬(this.VN = 5 ∧ reply ≠ 0 ∧ 256 ∣ reply) := by
  unfold finalResponse at h
  by_cases h4 : this.VN = 4
  · rw [if_pos h4] at h
    cases h
    rw [h4]
    refine iff_of_true ?_ fun hc => absurd hc.1 (by decide)
    have hcd : (if reply = 0 then 90 else 91 : UInt8) =
        if decide (reply ≠ 0) = true then 91 else 90 := by
      split <;> simp_all
    rw [hcd]
    exact .socks4 rfl
  · rw [if_neg h4, Option.ite_none_right_eq_some] at h
    obtain ⟨h5, ⟨⟩⟩ := h
    rw [h5]
    have hzero : UInt8.ofInt 0 = 0 := rfl
    constructor
    · rintro hr ⟨-, hne, hdvd⟩
      generalize hb : [5, UInt8.ofInt reply, 0, 1] ++ storeU32 0 ++ storeU16 0 = bytes at hr
      cases hr with
      | socks5 result =>
        simp only [List.cons_append, List.cons.injEq] at hb
        rw [← hb.2.1, ofInt_eq_zero.mpr hdvd] at result
        simp [hne] at result
    · intro hc
      refine @Reply.socks5 _ _ _ (storeU32 0) (storeU16 0) ?_ (.ipv4 rfl) rfl
      by_cases hr : reply = 0
      · simp [hr, hzero]
      · have hne : UInt8.ofInt reply ≠ 0 := fun h0 => hc ⟨rfl, hr, ofInt_eq_zero.mp h0⟩
        simp [hr, hne]

/-- The final response is what is written. -/
theorem sendFinalResponse_acted (h : Sizes w) (reply : ℤ) :
    wp (fun _ => True) (sendFinalResponse env reply) (fun _ w' => ∃ acts,
      w'.proto.acts = w.proto.acts ++ acts ∧ ∀ f bytes ok, .write f bytes ok ∈ acts →
        finalResponse w.proto.socks reply = some bytes) w := by
  unfold sendFinalResponse
  rw [wp_bind, wp_getSocks, wp_bind]
  refine wp_mono (sideSteps_still.poolBorrow env.toContext .rawData "socks.c" 387 w h) ?_
  rintro r w₁ ⟨h₁, k₁⟩
  have hacts : w₁.proto.acts = w.proto.acts := by rw [k₁.proto]
  cases r with
  | none => exact ⟨[], hacts.trans (List.append_nil _).symm, by simp⟩
  | some f =>
    dsimp only
    cases hf : finalResponse w.proto.socks reply with
    | some bytes =>
      refine wp_mono (respond_acted h₁ f bytes) fun _ w₂ h₂ => ?_
      refine ⟨_, hacts ▸ h₂.acts, fun g bytes' ok hmem => ?_⟩
      obtain ⟨-, rfl, -⟩ := Act.write.inj (List.mem_singleton.mp hmem)
      rfl
    | none =>
      rw [wp_bind, wp_getFrame, wp_bind, Frame.formatSimple_eq (h₁ f), wp_liftM_ok, wp_bind,
        wp_setFrame, wp_bind]
      refine wp_mono (sideSteps_still.frameReturn env.toContext f _ (h₁.setFrame (h₁ f))) ?_
      rintro _ w₂ ⟨_, k₂⟩
      refine ⟨[], ?_, by simp⟩
      change w₂.proto.acts = w.proto.acts ++ []
      rw [k₂.proto, List.append_nil]
      exact hacts

end Final

section Runs

variable {A : Answers} {g : Bool} {ATYP : UInt8} {w : World Stream Session}

/-- In every run, the frame of a call is disposed of as it should exactly when no reply is due or
the write side is open. -/
theorem disposed_iff (h : Reaches A g ATYP w) (c : Call) (hc : c ∈ w.proto.calls) :
    c.Disposed ↔ (c.Replies → c.writeOpen = true) :=
  (h.ran hc).disposed_iff_writeOpen

/-- In every run, the replies of a call to a request have the format of the version exactly when it
is no refusal of SOCKS5, and the final response has it exactly when the reply code of SOCKS5 fits
in a byte or is zero. -/
theorem replies_format (h : Reaches A g ATYP w) :
    (∀ c ∈ w.proto.calls, c.frame.type ≠ .endOfStream →
      ((∀ bytes, c.Answered bytes → Reply true c.socks.VN bytes) ↔
        ¬(c.socks.VN = 5 ∧ c.Refuses))) ∧
    ∀ env reply ok w', sendFinalResponse env reply w = .ok (ok, w') → ∃ acts,
      w'.proto.acts = w.proto.acts ++ acts ∧ ∀ f bytes ok, .write f bytes ok ∈ acts →
        (Reply (reply ≠ 0) w.proto.socks.VN bytes ↔
          ¬(w.proto.socks.VN = 5 ∧ reply ≠ 0 ∧ 256 ∣ reply)) := by
  refine ⟨fun c hc ht => (h.ran hc).reply_iff ht, fun env reply ok w' hrun => ?_⟩
  obtain ⟨acts, hacts, hwrites⟩ := wp_ok (sendFinalResponse_acted h.feeds.sizes reply) hrun
  exact ⟨acts, hacts, fun f bytes ok hmem => reply_finalResponse (hwrites f bytes ok hmem)⟩

/-- A client of SOCKS5 that asks for BIND, twice. -/
def binds : List (List UInt8) :=
  [[5], [1], [0], [5], [2, 0, 1], [10, 0, 0, 1], [0, 80], [5], [2, 0, 1], [10, 0, 0, 1], [0, 80]]

/-- A client of SOCKS4 that asks for a host. -/
def connects : List (List UInt8) := [[4], [1, 0, 80, 10, 0, 0, 1], [0]]

/-- A refusal that is written. -/
theorem disposed_iff_declined : ∃ w, Reaches anyAnswer true 0 w ∧
    ∃ c ∈ w.proto.calls, c.taken = true ∧ (c.Disposed ↔ (c.Replies → c.writeOpen = true)) := by
  obtain ⟨w, hw, ht⟩ := sends_observe anyAnswer (fun _ _ _ _ => false) (fun _ _ _ _ => trivial)
    connects (fun _ _ => 0) (fun w => w.proto.calls.any Call.taken) true (by decide +kernel)
  obtain ⟨c, hc, ht⟩ := List.any_eq_true.mp ht
  exact ⟨w, hw, c, hc, ht, disposed_iff hw c hc⟩

/-- The second refusal finds the write side closed. -/
theorem not_disposed_all : ¬∀ (A : Answers) (g : Bool) (ATYP : UInt8) (w : World Stream Session),
    Reaches A g ATYP w → ∀ c ∈ w.proto.calls, c.Disposed := by
  intro h
  obtain ⟨w, hw, ht⟩ := sends_observe anyAnswer (fun _ _ _ _ => true) (fun _ _ _ _ => trivial)
    binds (fun _ _ => 0)
    (fun w => w.proto.calls.any fun c => c.disposals ≠ if c.taken then 1 else 0) true
    (by decide +kernel)
  obtain ⟨c, hc, ht⟩ := List.any_eq_true.mp ht
  exact of_decide_eq_true ht (h _ _ _ w hw c hc)

/-- A refusal in the format of SOCKS4. -/
theorem replies_format_declined : ∃ w, Reaches anyAnswer true 0 w ∧
    ∃ c ∈ w.proto.calls, c.frame.type ≠ .endOfStream ∧
      ((∀ bytes, c.Answered bytes → Reply true c.socks.VN bytes) ↔
        ¬(c.socks.VN = 5 ∧ c.Refuses)) := by
  obtain ⟨w, hw, ht⟩ := sends_observe anyAnswer (fun _ _ _ _ => false) (fun _ _ _ _ => trivial)
    connects (fun _ _ => 0)
    (fun w => w.proto.calls.any fun c => c.taken && c.frame.type ≠ .endOfStream)
    true (by decide +kernel)
  obtain ⟨c, hc, ht⟩ := List.any_eq_true.mp ht
  have ht : c.frame.type ≠ .endOfStream := of_decide_eq_true (Bool.and_eq_true_iff.mp ht).2
  exact ⟨w, hw, c, hc, ht, (replies_format hw).1 c hc ht⟩

/-- A client of SOCKS5 is refused in the format of SOCKS4. -/
theorem not_replies_format_all : ¬∀ (A : Answers) (g : Bool) (ATYP : UInt8)
    (w : World Stream Session), Reaches A g ATYP w → ∀ c ∈ w.proto.calls,
      ∀ bytes, c.Answered bytes → Reply true c.socks.VN bytes := by
  intro h
  obtain ⟨w, hw, ht⟩ := sends_observe anyAnswer (fun _ _ _ _ => true) (fun _ _ _ _ => trivial)
    binds (fun _ _ => 0) (fun w => w.proto.calls.any fun c => c.frame.type ≠ .endOfStream ∧
      c.socks.VN = 5 ∧ c.socks.authorized = true ∧ c.frame.vecLimit = 4 ∧
        .write c.id errorResponse true ∈ c.acts) true (by decide +kernel)
  obtain ⟨c, hc, ht⟩ := List.any_eq_true.mp ht
  obtain ⟨ht, h5, ha, hl, hmem⟩ := of_decide_eq_true ht
  have hr := h _ _ _ w hw c hc errorResponse ⟨ht, .inr ⟨h5, ha, hl⟩, c.id, true, hmem⟩
  exact (reply_errorResponse (.inr h5)).mp hr h5

end Runs

end Socks

end FrameTransporter
