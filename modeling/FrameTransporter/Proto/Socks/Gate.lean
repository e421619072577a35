import FrameTransporter.Proto.Socks.Runs

/-! # The authorization of SOCKS5 clients

A client is authorized by the method that the delegate selects, from the methods
that it received. There is one greeting on a stream, so a client that was rejected
stays unauthorized.
-/

namespace FrameTransporter

open Intrusive

namespace Socks

open FrameTransporter.Stream

/-- The frame of the call holds a greeting of SOCKS5. When reading ended inside it, it has fewer
methods than it announces. -/
structure Call.Greets (c : Call) (n : UInt8) (methods : List UInt8) : Prop where
  type : c.frame.type ≠ .endOfStream
  contents : c.frame.contents = 5 :: n :: methods
  length : methods.length ≤ n.toNat

/-- The call asks the connect delegate. -/
def Call.Connects (c : Call) : Prop := ∃ t h p ok, Act.connect t h p ok ∈ c.acts

/-- The call answers a greeting that no method is selected for. -/
def Call.Rejects (c : Call) : Prop :=
  c.frame.type ≠ .endOfStream ∧ ∃ f ok, Act.write f [5, 0xFF] ok ∈ c.acts

/-- The call ends with this verdict. -/
def Call.EndsWith (c : Call) (v : Verdict) : Prop :=
  c.frame.type ≠ .endOfStream ∧ ∃ this x, decision c.socks c.frame = .ok (this, x, some v)

section Calls

variable {A : Answers} {ATYP : UInt8} {c : Call} {calls pre post : List Call} {this : Socks}

/-- Only a request leads to the connect delegate. -/
theorem Ran.request_of_connects (h : Ran A c) (hc : c.Connects) :
    ∃ t, c.EndsWith (.request t) := by
  obtain ⟨t, host, p, ok, hmem⟩ := hc
  cases h with
  | ended _ _ acts =>
    rw [acts] at hmem
    split at hmem <;> simp at hmem
  | more _ _ _ acts =>
    rw [acts] at hmem
    cases hmem
  | @done this x v type decision _ acts =>
    generalize c.acts = acts' at acts hmem
    cases acts with
    | refused | connected | declined => exact ⟨_, type, _, _, decision⟩
    | selected | rejected | closed => simp at hmem

theorem Ran.select_of_rejects (h : Ran A c) (hc : c.Rejects) : c.EndsWith (.select 0xFF) := by
  obtain ⟨ht, f, ok, hmem⟩ := hc
  cases h with
  | ended type => exact absurd type ht
  | more _ _ _ acts =>
    rw [acts] at hmem
    cases hmem
  | @done this x v type decision _ acts =>
    generalize c.acts = acts' at acts hmem
    cases acts with
    | rejected => exact ⟨type, _, _, decision⟩
    | refused | connected | declined | selected | closed =>
      simp [refusal, errorResponse] at hmem

/-- Methods are selected for a greeting. -/
theorem Parser.Good.greeting {p : Parser} (h : p.Good) (hv : p.socks.VN = 5)
    (ha : p.socks.authorized = false) (hl : p.fields.length = 2) :
    ∃ n, p.fields = [[5], [n]] ∧ p.room = n.toNat ∧ p.part.length < n.toNat := by
  obtain ⟨this, phase, fields, part, room⟩ := p
  dsimp only at hv ha hl ⊢
  cases phase with
  | version =>
    obtain ⟨h, -⟩ := h
    cases h
    cases hl
  | header4 => exact absurd (hv.symm.trans h.1) (by decide)
  | userid =>
    obtain ⟨⟨header, hh, -⟩, -⟩ := h
    exact absurd (hv.symm.trans hh.VN) (by decide)
  | host =>
    obtain ⟨⟨header, userid, hh, -⟩, -⟩ := h
    exact absurd (hv.symm.trans hh.VN) (by decide)
  | nmethods =>
    rw [show fields = [[5]] from h.2.1] at hl
    cases hl
  | methods =>
    obtain ⟨-, n, -, hf, hr, hlt⟩ := h
    exact ⟨n, hf, hr, hlt⟩
  | header5 | ipv4 | length | name | ipv6 | port =>
    exact absurd (ha.symm.trans h.1.authorized) (by decide)

/-- The frame of a call that selects a method holds a greeting with the methods received. -/
theorem Known.greets {v : Vec} (h : Known c) (ht : c.frame.type ≠ .endOfStream)
    (ha : Admits c.socks c.frame .select) (hv : vecAt c.frame 2 = .ok v) :
    ∃ n, c.Greets n (c.frame.receivedBytes v) := by
  obtain ⟨⟨h5, hauth, -⟩, hlim⟩ := ha
  cases h with
  | ended type => exact absurd type ht
  | @full p bs good _ _ room socks frame =>
    rw [frame.vecLimit, List.length_append] at hlim
    obtain ⟨n, hf, hroom, -⟩ := good.greeting (socks ▸ h5) (socks ▸ hauth) (by simpa using hlim)
    rw [hf] at frame
    have hvec : vecAt c.frame 2 = .ok ⟨2, (p.part ++ bs).length, (p.part ++ bs).length,
      (p.part ++ bs).length⟩ := frame.vecAt [[5], [n]] []
    rw [hvec] at hv
    cases hv
    have hr : c.frame.receivedBytes ⟨2, (p.part ++ bs).length, (p.part ++ bs).length,
        (p.part ++ bs).length⟩ = p.part ++ bs := frame.slice_at [[5], [n]] []
    refine ⟨n, ht, ?_, ?_⟩
    · rw [frame.contents, hr]
      simp
    · rw [hr, List.length_append, room, hroom]
  | @cut p good _ _ socks frame =>
    rw [frame.vecLimit] at hlim
    obtain ⟨n, hf, hroom, hlt⟩ :=
      good.greeting (socks ▸ h5) (socks ▸ hauth) (Nat.succ_injective hlim)
    have hvec : vecAt c.frame 2 = .ok ⟨2, p.part.length, p.room, p.room⟩ := by
      rw [vecAt, frame.vecs, hf]
      rfl
    rw [hvec] at hv
    cases hv
    have hdata := frame.data
    rw [Parser.bytes, hf, List.length_append, slice_add] at hdata
    have hr : c.frame.receivedBytes ⟨2, p.part.length, p.room, p.room⟩ = p.part :=
      (List.append_inj hdata (by simp)).2
    refine ⟨n, ht, ?_, ?_⟩
    · rw [frame.contents, Parser.bytes, hf, hr]
      rfl
    · rw [hr]
      exact hlt.le

/-- On a stream of SOCKS5 there is room for every field. -/
theorem Threaded.roomy (h : Threaded ATYP calls this) (h5 : this.VN = 5) :
    ∀ a ∈ calls, a.Roomy := by
  intro a ha h4
  have hVN := h.VN a ha (h4 ▸ by decide)
  exact absurd (h5.symm.trans (hVN.trans h4)) (by decide)

/-- What one call does to the authorization. -/
theorem Call.Leaves.authorized (h : c.Leaves this) :
    this.authorized = c.socks.authorized ∧ this.SELMETHOD = c.socks.SELMETHOD ∨
      c.EndsWith (.select 0) ∧ this.authorized = true ∧ this.SELMETHOD = 0 := by
  unfold Call.Leaves at h
  split at h
  · exact .inl (by rw [h]; exact ⟨rfl, rfl⟩)
  · next ht =>
    obtain ⟨x, v, hd⟩ := h
    by_cases hv : v = some (.select 0)
    · subst hv
      exact .inr ⟨⟨ht, this, x, hd⟩, (decides hd).selected rfl⟩
    · exact .inl ((decides hd).authorized hv)

theorem Call.EndsWith.select {m : UInt8} (h : c.EndsWith (.select m)) :
    Admits c.socks c.frame .select ∧
      ∃ u, vecAt c.frame 2 = .ok u ∧ (m = 0 ↔ 0 ∈ c.frame.receivedBytes u) := by
  obtain ⟨-, this, x, hd⟩ := h
  exact (decides hd).select m rfl

/-- The call selects a method. -/
def Greeting (c : Call) : Prop :=
  c.frame.type ≠ .endOfStream ∧ Admits c.socks c.frame .select ∧ c.taken = true

theorem Call.EndsWith.greeting {m : UInt8} (h : c.EndsWith (.select m)) (hr : Ran A c) :
    Greeting c := by
  refine ⟨h.1, h.select.1, ?_⟩
  obtain ⟨ht, this, x, hd⟩ := h
  cases hr with
  | ended type => exact absurd type ht
  | more _ decision =>
    rw [hd] at decision
    cases decision
  | done _ _ taken => exact taken

/-- An authorized client was selected a method for. -/
theorem Threaded.selected (h : Threaded ATYP calls this) (ha : this.authorized = true) :
    this.SELMETHOD = 0 ∧ this.VN = 5 ∧
      ∃ pre c post, calls = pre ++ c :: post ∧ c.EndsWith (.select 0) := by
  induction h with
  | nil => cases ha
  | @concat calls c this h hc ih =>
    rcases hc.authorized with ⟨hauth, hsel⟩ | ⟨hreach, -, hsel⟩
    · obtain ⟨hs, h5, pre, a, post, rfl, hreach⟩ := ih (hauth.symm.trans ha)
      have hVN := hc.VN (h5 ▸ by decide)
      exact ⟨hsel.trans hs, hVN.trans h5, pre, a, post ++ [c], by simp, hreach⟩
    · have h5 : c.socks.VN = 5 := hreach.select.1.1.VN
      have hVN := hc.VN (h5 ▸ by decide)
      exact ⟨hsel, hVN.trans h5, calls, c, [], rfl, hreach⟩

end Calls

section Runs

variable {A : Answers} {g : Bool} {ATYP : UInt8} {w : World Stream Session}

/-- After a client was rejected, there is no other greeting. -/
theorem Reaches.rejected (h : Reaches A g ATYP w) {c : Call} (hc : c ∈ w.proto.calls)
    (hr : c.Rejects) : w.proto.socks.authorized = false := by
  by_contra ha
  obtain ⟨-, h5, pre, a, post, hs, hreach⟩ :=
    h.threaded.selected (Bool.eq_true_of_not_eq_false ha)
  have hreject := (h.ran hc).select_of_rejects hr
  have hgc := hreject.greeting (h.ran hc)
  have hga := hreach.greeting (h.ran (hs ▸ by simp))
  have hbefore : ∀ pre b post, w.proto.calls = pre ++ b :: post → Greeting b →
      ∀ b' ∈ pre, ¬Greeting b' := by
    rintro pre b post hs ⟨ht, ⟨hb, hlim⟩, -⟩ b' hmem ⟨-, ⟨hb', -⟩, htaken⟩
    have h0 := h.once hs ht (.inr ⟨hb.VN, hb.authorized⟩) (hlim ▸ by decide) b' hmem htaken
    exact absurd (hb'.VN.symm.trans h0) (by decide)
  rw [hs, List.mem_append, List.mem_cons] at hc
  rcases hc with hc | rfl | hc
  · exact hbefore pre a post hs hga c hc hgc
  · obtain ⟨-, _, _, hd⟩ := hreach
    obtain ⟨-, _, _, hd'⟩ := hreject
    rw [hd] at hd'
    simp at hd'
  · obtain ⟨post₁, post₂, rfl⟩ := List.append_of_mem hc
    exact hbefore (pre ++ a :: post₁) c post₂ (by simp [hs]) hgc a (by simp) hga

/-- A client is authorized only if a greeting was received on the stream with the method that
needs no authentication among the bytes received, and then this method is selected. With version 5
nothing is connected for a client that is not authorized. A client that was rejected is not
authorized. -/
theorem authorized_gate (h : Reaches A g ATYP w) :
    (w.proto.socks.authorized = true → w.proto.socks.SELMETHOD = 0 ∧
      ∃ c ∈ w.proto.calls, ∃ n methods, c.Greets n methods ∧ 0 ∈ methods ∧
        (5 :: n :: methods).map some <:+: inputs w.trace) ∧
    (∀ c ∈ w.proto.calls, c.Connects → c.socks.VN = 5 → c.socks.authorized = true) ∧
    ∀ c ∈ w.proto.calls, c.Rejects → w.proto.socks.authorized = false := by
  refine ⟨fun ha => ?_, fun c hc hconn h5 => ?_, fun c hc hr => h.rejected hc hr⟩
  · obtain ⟨hsel, h5, pre, c, post, hs, hreach⟩ := h.threaded.selected ha
    have hroomy := h.threaded.roomy h5
    have hseen := h.seen hs fun b hb => hroomy b (hs ▸ List.mem_append_left _ hb)
    obtain ⟨hadmits, v, hv, h0⟩ := hreach.select
    obtain ⟨n, hgreets⟩ := hseen.known.greets hreach.1 hadmits hv
    refine ⟨hsel, c, hs ▸ by simp, n, _, hgreets, h0.mp rfl, ?_⟩
    exact hgreets.contents ▸ hseen.received hreach.1
  · obtain ⟨t, -, this, x, hd⟩ := (h.ran hc).request_of_connects hconn
    rcases ((decides hd).request t rfl).1 with ⟨h4, -⟩ | ⟨-, ha, -⟩
    · exact absurd (h5.symm.trans h4) (by decide)
    · exact ha

/-- A client that is authorized. -/
theorem authorized_gate_greeting : ∃ w, Reaches anyAnswer true 0 w ∧
    w.proto.socks.authorized = true ∧ w.proto.socks.SELMETHOD = 0 ∧
    ∃ c ∈ w.proto.calls, ∃ n methods, c.Greets n methods ∧ 0 ∈ methods ∧
      (5 :: n :: methods).map some <:+: inputs w.trace := by
  obtain ⟨w, hw, ha⟩ := sends_observe anyAnswer (fun _ _ _ _ => true) (fun _ _ _ _ => trivial)
    [[5], [2], [0, 2]] (fun _ _ => 0) (fun w => w.proto.socks.authorized) true (by decide +kernel)
  exact ⟨w, hw, ha, (authorized_gate hw).1 ha⟩

end Runs

end Socks

end FrameTransporter
