import FrameTransporter.Proto.Socks.Bounds
import FrameTransporter.Proto.Socks.Grammar

/-! # Messages that end too early

When reading ends, the delegate sees a frame that is not full. It tells how far a message
is from the number of the vectors alone, so a frame that was cut off in front of a field
is taken for one that has it. Otherwise the result of a call depends only on what was
received, and only a complete request is connected.
-/

namespace FrameTransporter

open Hoare Intrusive

/-- The frame with other bytes in its memory. -/
def Frame.withData (x : Frame) (data : ℕ → UInt8) : Frame := { x with data }

/-- The memory has the bytes that were received in the frame. -/
def Frame.Received (x : Frame) (data : ℕ → UInt8) : Prop :=
  ∀ v ∈ x.vecs, slice data v.offset v.position = x.receivedBytes v

namespace Socks

open FrameTransporter.Stream ReadEvent

/-- What a decision leaves of the protocol, and its verdict. -/
def result (this : Socks) (x : Frame) : Except Fault (Socks × Option Verdict) :=
  (decision this x).map fun r => (r.1, r.2.2)

/-- The result of the call is the same with any other bytes behind those that were received. -/
def Call.Blind (c : Call) : Prop :=
  ∀ data, c.frame.Received data → result c.socks (c.frame.withData data) = result c.socks c.frame

/-- The frame of the call holds a complete request. -/
inductive Call.Complete (c : Call) : Prop
  | socks4 {header userid : List UInt8} (header4 : Header4 c.socks header) (h0 : 0 ∉ userid)
    (plain : ¬c.socks.Socks4A) (contents : c.frame.contents = 4 :: header ++ userid ++ [0])
  | socks4a {header userid host : List UInt8} (header4 : Header4 c.socks header) (h0 : 0 ∉ userid)
    (marked : c.socks.Socks4A) (h0' : 0 ∉ host)
    (contents : c.frame.contents = 4 :: header ++ userid ++ [0] ++ host ++ [0])
  | socks5 {v r : UInt8} {addr port : List UInt8} (auth : Authorized c.socks)
    (address : Address c.socks.ATYP addr) (length : port.length = 2)
    (contents : c.frame.contents = [v, c.socks.CD, r, c.socks.ATYP] ++ addr ++ port)

/-- Reading ended in the header of a message, in front of a text of SOCKS4 that is awaited,
or in the port of a request of SOCKS5. -/
def Call.Torn (c : Call) : Prop :=
  c.frame.vecPosition < c.frame.vecLimit ∧
    (c.frame.vecLimit = 2 ∨
      c.socks.VN = 4 ∧ 3 ≤ c.frame.vecLimit ∧ c.frame.contents.getLast? = some 0 ∧ c.socks.CD = 1 ∨
      c.socks.VN = 5 ∧ c.frame.vecLimit = 4)

instance (c : Call) : Decidable c.Roomy := inferInstanceAs (Decidable (_ → _))

instance (c : Call) : Decidable c.Torn := inferInstanceAs (Decidable (_ ∧ _))

section Memory

variable {x : Frame} {data : ℕ → UInt8} {fields : List (List UInt8)} {p : Parser}
  {this this' : Socks}
  {i n : ℕ} {y : Frame}

theorem flatMap_layout (data : ℕ → UInt8) (off : ℕ) (fields : List (List UInt8)) :
    (layout off fields).flatMap (fun v => slice data v.offset v.position) =
      slice data off fields.flatten.length := by
  induction fields generalizing off with
  | nil => rfl
  | cons field fields ih =>
    rw [layout, List.flatMap_cons, ih, List.flatten_cons, List.length_append, slice_add]

/-- The bytes that were received are the same. -/
theorem contents_withData (h : x.Received data) : (x.withData data).contents = x.contents :=
  List.flatMap_congr h

theorem Full.withData (h : Full fields x) (hd : x.Received data) :
    Full fields (x.withData data) := by
  refine ⟨h.vecs, h.cursor, ?_, h.capacity, h.type⟩
  have hc := contents_withData hd
  rw [h.contents, Frame.contents] at hc
  refine Eq.trans ?_ hc
  change _ = x.vecs.flatMap fun v => slice data v.offset v.position
  rw [h.vecs, flatMap_layout]
  rfl

theorem Holds.withData (h : Holds p x) (hd : x.Received data) : Holds p (x.withData data) := by
  refine ⟨h.vecs, h.cursor, ?_, h.capacity, h.type⟩
  have hc := contents_withData hd
  rw [h.contents, Frame.contents] at hc
  refine Eq.trans ?_ hc
  change _ = x.vecs.flatMap fun v => slice data v.offset v.position
  rw [h.vecs, List.flatMap_append, flatMap_layout, List.flatMap_cons, List.flatMap_nil,
    List.append_nil, length_bytes, slice_add, Nat.zero_add]
  rfl

theorem createVec_withData {off : ℕ} : (x.withData data).createVec off n =
    (x.createVec off n).map fun r => (r.1, r.2.withData data) := by
  have hl : (x.withData data).vecLimit = x.vecLimit := rfl
  have hc : (x.withData data).capacity = x.capacity := rfl
  unfold Frame.createVec
  rw [hl, hc]
  dsimp only
  split_ifs <;> rfl

theorem result_more (h : onRead this x = .ok (this', y, .more)) :
    result this x = .ok (this', none) := by
  rw [result, decision, h]
  rfl

theorem result_append (h : decision this x = do
      let (_, y) ← x.appendVec n
      return (this', y, none)) :
    result this x = (x.appendVec n).map fun _ => (this', none) := by
  rw [result, h]
  cases x.appendVec n <;> rfl

theorem result_refused (h : onRead this x = .ok (this', x, .request)) (hcd : this'.CD ≠ 1) :
    result this x = .ok (this', some (.request none)) := by
  have hd : decision this x = .ok (this', x, some (.request none)) := by
    rw [decision, h]
    exact if_pos hcd
  rw [result, hd]
  rfl

/-- Whether a vector can be appended does not depend on the bytes in the frame. -/
theorem map_appendVec {α : Type} (a : α) : ((x.withData data).appendVec n).map (fun _ => a) =
    (x.appendVec n).map fun _ => a := by
  have hoff : (x.withData data).appendOffset = x.appendOffset := rfl
  rw [Frame.appendVec, Frame.appendVec, hoff, createVec_withData]
  cases x.createVec x.appendOffset n <;> rfl

/-- What follows from the fields is the same for the same fields. -/
theorem Follows.result_eq {next : Next} (h : Follows this x i next)
    (h' : Follows this (x.withData data) i next) :
    result this (x.withData data) = result this x := by
  cases next with
  | append phase this' n => rw [result_append h, result_append h', map_appendVec]
  | grow phase n =>
    rw [result, result, show decision this x = _ from h, show decision this _ = _ from h']
    rfl
  | done this' v =>
    rw [result, result, show decision this x = _ from h, show decision this _ = _ from h']
    rfl

/-- The byte in front of the position. -/
theorem Holds.last (h : Holds p x) (hne : p.bytes ≠ []) :
    p.bytes.getLast? = some (x.data (p.fields.flatten.length + p.part.length - 1)) := by
  rw [getLast?_of_slice hne h.data, length_bytes]

theorem Holds.vecAt (h : Holds p x) :
    Socks.vecAt x p.fields.length = .ok p.vec := by
  rw [Socks.vecAt, h.vecs, List.getElem?_append_right (length_layout _ _).le, length_layout,
    Nat.sub_self]
  rfl

end Memory

section Cut

variable {x : Frame} {data : ℕ → UInt8} {this : Socks} {p : Parser}

/-- The byte in front of the position was received. -/
theorem Holds.last_withData (h : Holds p x) (hne : p.bytes ≠ []) (hd : x.Received data) :
    (x.withData data).data (p.vec.offset + p.vec.position - 1) =
      x.data (p.vec.offset + p.vec.position - 1) :=
  Option.some.inj (((h.withData hd).last hne).symm.trans (h.last hne))

/-- A user name that was cut off. -/
theorem userid_blind (h : Holds p x) (h4 : this.VN = 4) (hl : p.fields.length = 2)
    (hne : p.bytes ≠ []) (hcd : p.bytes.getLast? = some 0 → this.CD ≠ 1) (hd : x.Received data) :
    result this (x.withData data) = result this x := by
  have hlim : x.vecLimit = 3 := h.vecLimit.trans (congrArg (· + 1) hl)
  have hread := onRead_userid h4 hlim (hl ▸ h.vecAt)
  have hread' := onRead_userid (x := x.withData data) h4 hlim (hl ▸ (h.withData hd).vecAt)
  have hb := h.last_withData hne hd
  by_cases h0 : x.data (p.vec.offset + p.vec.position - 1) = 0
  · have hread := hread.trans (if_pos h0)
    have hread' := hread'.trans (if_pos (hb.trans h0))
    by_cases ha : this.Socks4A
    · have hread := hread.trans (if_pos ha)
      have hread' := hread'.trans (if_pos ha)
      rw [result_append (decision_append hread), result_append (decision_append hread'),
        map_appendVec]
    · have hcd := hcd ((h.last hne).trans (congrArg some h0))
      rw [result_refused (hread.trans (if_neg ha)) hcd,
        result_refused (hread'.trans (if_neg ha)) hcd]
  · rw [result_more (hread.trans (if_neg h0)), result_more (hread'.trans (if_neg (hb ▸ h0)))]

/-- A host that was cut off. -/
theorem host_blind (h : Holds p x) (h4 : this.VN = 4) (ha : this.Socks4A)
    (hl : p.fields.length = 3) (hne : p.bytes ≠ [])
    (hcd : p.bytes.getLast? = some 0 → this.CD ≠ 1) (hd : x.Received data) :
    result this (x.withData data) = result this x := by
  have hlim : x.vecLimit = 4 := h.vecLimit.trans (congrArg (· + 1) hl)
  have hread := onRead_host h4 ha hlim (hl ▸ h.vecAt)
  have hread' := onRead_host (x := x.withData data) h4 ha hlim (hl ▸ (h.withData hd).vecAt)
  have hb := h.last_withData hne hd
  by_cases h0 : x.data (p.vec.offset + p.vec.position - 1) = 0
  · have hcd := hcd ((h.last hne).trans (congrArg some h0))
    rw [result_refused (hread.trans (if_pos h0)) hcd,
      result_refused (hread'.trans (if_pos (hb.trans h0))) hcd]
  · rw [result_more (hread.trans (if_neg h0)), result_more (hread'.trans (if_neg (hb ▸ h0)))]

/-- Methods that were cut off. -/
theorem methods_blind (h : Holds p x) (hg : Greeted this) (hl : p.fields.length = 2)
    (hd : x.Received data) : result this (x.withData data) = result this x := by
  have hlim : x.vecLimit = 3 := h.vecLimit.trans (congrArg (· + 1) hl)
  have hmem : p.vec ∈ x.vecs := by
    rw [h.vecs]
    exact List.mem_concat_self
  have hdec : ∀ y : Frame, Holds p y → y.vecLimit = 3 → result this y =
      if 0 ∈ y.receivedBytes p.vec then
        .ok ({ this with SELMETHOD := 0, authorized := true }, some (.select 0))
      else .ok (this, some (.select 0xFF)) := by
    intro y hy hlim
    rw [result, decision, onRead_methods hg hlim]
    change Except.map _ (do let v ← vecAt y 2; _) = _
    rw [← hl, hy.vecAt]
    change Except.map _ (if this.SELMETHOD ≠ 0xFF then _ else _) = _
    rw [if_neg (not_not_intro hg.SELMETHOD)]
    split <;> rfl
  rw [hdec x h hlim, hdec _ (h.withData hd) hlim, Frame.receivedBytes]
  exact if_congr (by rw [← hd _ hmem]; rfl) rfl rfl

/-- An address that was cut off. -/
theorem address_blind (h : Holds p x) (ha : Authorized this) (hl : p.fields.length = 2)
    (hd : x.Received data) : result this (x.withData data) = result this x := by
  have hlim : x.vecLimit = 3 := h.vecLimit.trans (congrArg (· + 1) hl)
  have hread := onRead_address ha hlim (hl ▸ h.vecAt)
  have hread' := onRead_address (x := x.withData data) ha hlim (hl ▸ (h.withData hd).vecAt)
  by_cases h1 : this.ATYP = 3 ∧ p.vec.capacity = 1
  · rw [result_more (hread.trans (if_pos h1)), result_more (hread'.trans (if_pos h1))]
  · rw [result_append (decision_append (hread.trans (if_neg h1))),
      result_append (decision_append (hread'.trans (if_neg h1))), map_appendVec]

end Cut

section Calls

variable {A : Answers} {c : Call} {p : Parser}

/-- A frame that was cut off is torn, or its result depends only on what was received. -/
theorem Holds.blind (h : Holds p c.frame) (hp : p.Good) (hne : p.bytes ≠ [])
    (hs : c.socks = p.socks) (hn : ¬c.Torn) : c.Blind := by
  intro data hd
  have hcut : c.frame.vecPosition < c.frame.vecLimit := by
    rw [h.cursor, h.vecLimit]
    exact Nat.lt_succ_self _
  have hlim := h.vecLimit
  have hlast := h.contents
  simp only [Call.Torn, hcut, true_and, not_or, not_and] at hn
  obtain ⟨htwo, hfour, hport⟩ := hn
  rw [hs] at hfour hport ⊢
  rw [hlim, hlast] at hfour
  obtain ⟨this, phase, fields, part, room⟩ := p
  dsimp only at hlim htwo hfour hport ⊢
  cases phase with
  | version => exact absurd rfl (hp.phase_ne hne)
  | header4 =>
    have hf : fields = [[4]] := hp.2.1
    exact absurd (hlim.trans (congrArg (List.length · + 1) hf)) htwo
  | nmethods =>
    have hf : fields = [[5]] := hp.2.1
    exact absurd (hlim.trans (congrArg (List.length · + 1) hf)) htwo
  | header5 =>
    obtain ⟨v, hf⟩ := hp.2.1
    exact absurd (hlim.trans (congrArg (List.length · + 1) hf)) htwo
  | port =>
    obtain ⟨ha, ⟨v, r, a, hf, -⟩, -⟩ := hp
    exact absurd (hlim.trans (congrArg (List.length · + 1) hf)) (hport ha.VN)
  | userid =>
    obtain ⟨⟨header, hh, hf⟩, -⟩ := hp
    have hl : fields.length = 2 := congrArg List.length hf
    exact userid_blind h hh.VN hl hne (hfour hh.VN (by omega)) hd
  | host =>
    obtain ⟨⟨header, userid, hh, ha, -, hf⟩, -⟩ := hp
    have hl : fields.length = 3 := congrArg List.length hf
    exact host_blind h hh.VN ha hl hne (hfour hh.VN (by omega)) hd
  | methods =>
    obtain ⟨hg, n, -, hf, -⟩ := hp
    exact methods_blind h hg (congrArg List.length hf) hd
  | ipv4 | length | name | ipv6 =>
    obtain ⟨ha, ⟨v, r, hf⟩, -⟩ := hp
    exact address_blind h ha (congrArg List.length hf) hd

theorem Known.blind (h : Known c) (ht : c.frame.type ≠ .endOfStream) (hn : ¬c.Torn) :
    c.Blind := by
  cases h with
  | ended type => exact absurd type ht
  | full good _ ne room socks frame =>
    intro data hd
    rw [socks]
    exact (good.follows ne room frame).result_eq (good.follows ne room (frame.withData hd))
  | cut good _ ne socks frame => exact frame.blind good ne socks hn

/-- The last vector of a request of SOCKS4 is its user name or its host. -/
theorem Parser.Good.request4 (h : p.Good) (h4 : p.socks.VN = 4) :
    (p.fields.length = 2 → p.phase = .userid) ∧ (p.fields.length = 3 → p.phase = .host) := by
  obtain ⟨this, phase, fields, part, room⟩ := p
  dsimp only at h4 ⊢
  cases phase with
  | version =>
    obtain ⟨h, -⟩ := h
    cases h
    exact ⟨by rintro ⟨⟩, by rintro ⟨⟩⟩
  | header4 =>
    have hf : fields = [[4]] := h.2.1
    rw [hf]
    exact ⟨by rintro ⟨⟩, by rintro ⟨⟩⟩
  | userid =>
    obtain ⟨⟨header, -, hf⟩, -⟩ := h
    have hf : fields = [[4], header] := hf
    rw [hf]
    exact ⟨fun _ => rfl, by rintro ⟨⟩⟩
  | host =>
    obtain ⟨⟨header, userid, -, -, -, hf⟩, -⟩ := h
    have hf : fields = [[4], header, userid ++ [0]] := hf
    rw [hf]
    exact ⟨by rintro ⟨⟩, fun _ => rfl⟩
  | nmethods | methods => exact absurd (h4.symm.trans h.1.VN) (by decide)
  | header5 | ipv4 | length | name | ipv6 | port => exact absurd (h4.symm.trans h.1.VN) (by decide)

/-- A text that has ended has one more byte, which is zero. -/
theorem text_ends {part bs : List UInt8} (hl : part.length + bs.length = part.length + 1)
    (h0 : (part ++ bs).getLast? = some 0) : part ++ bs = part ++ [0] := by
  obtain ⟨b, rfl⟩ := List.length_eq_one_iff.mp (Nat.add_left_cancel hl)
  rw [List.getLast?_concat] at h0
  cases h0
  rfl

/-- A full frame that is taken for a request has a complete one. -/
theorem Call.Whole.complete (h : c.Whole) (ha : Asks c.socks c.frame) : c.Complete := by
  have hwhole := h
  obtain ⟨p, bs, hp, -, hne, hroom, hs, hx⟩ := h
  have hlim := hx.vecLimit
  have hcontents := hx.contents
  rw [List.length_append, List.length_singleton] at hlim
  have hterm : ∀ {i : ℕ}, p.fields.length = i → Terminated c.frame i →
      (p.part ++ bs).getLast? = some 0 := by
    rintro _ rfl ⟨v, hv, h0⟩
    rw [hx.vecAt p.fields []] at hv
    cases hv
    rw [← hx.last p.fields [] (List.append_ne_nil_of_right_ne_nil _ hne)]
    exact congrArg some h0
  rcases ha with ⟨h4, ⟨hl, hplain, h0⟩ | ⟨hl, hmarked, h0⟩⟩ | ⟨h5, hauth, hl⟩
  · have htwo : p.fields.length = 2 := Nat.succ_injective (hlim.symm.trans hl)
    have hphase := (hp.request4 (hs ▸ h4)).1 htwo
    have hlast := hterm htwo h0
    obtain ⟨this, phase, fields, part, room⟩ := p
    dsimp only at hphase hroom hs hcontents hlast
    subst hphase
    obtain ⟨⟨header, hh, hf⟩, h0, hr⟩ := hp
    dsimp only at hf hr
    subst hf hr
    rw [text_ends hroom hlast] at hcontents
    exact .socks4 (hs ▸ hh) h0 hplain (by simpa using hcontents)
  · have hthree : p.fields.length = 3 := Nat.succ_injective (hlim.symm.trans hl)
    have hphase := (hp.request4 (hs ▸ h4)).2 hthree
    have hlast := hterm hthree h0
    obtain ⟨this, phase, fields, part, room⟩ := p
    dsimp only at hphase hroom hs hcontents hlast
    subst hphase
    obtain ⟨⟨header, userid, hh, -, hu, hf⟩, h0, hr⟩ := hp
    dsimp only at hf hr
    subst hf hr
    rw [text_ends hroom hlast] at hcontents
    exact .socks4a (hs ▸ hh) hu hmarked h0 (by simpa using hcontents)
  · obtain ⟨v, r, addr, port, haddr, hport, hc⟩ := hwhole.request5 ⟨h5, hauth⟩ hl
    exact .socks5 ⟨h5, hauth⟩ haddr hport hc

/-- A frame that was cut off and is taken for a request is torn. -/
theorem Holds.torn (h : Holds p c.frame) (hne : p.bytes ≠ []) (ha : Asks c.socks c.frame)
    (hcd : c.socks.CD = 1) : c.Torn := by
  have hlim := h.vecLimit
  have hlast : ∀ {i : ℕ}, p.fields.length = i → Terminated c.frame i →
      c.frame.contents.getLast? = some 0 := by
    rintro _ rfl ⟨v, hv, h0⟩
    rw [h.vecAt] at hv
    cases hv
    rw [h.contents, h.last hne]
    exact congrArg some h0
  refine ⟨by rw [h.cursor, hlim]; exact Nat.lt_succ_self _, .inr ?_⟩
  rcases ha with ⟨h4, ⟨hl, -, h0⟩ | ⟨hl, -, h0⟩⟩ | ⟨h5, -, hl⟩
  · exact .inl ⟨h4, hl.ge, hlast (Nat.succ_injective (hlim.symm.trans hl)) h0, hcd⟩
  · exact .inl ⟨h4, by omega, hlast (Nat.succ_injective (hlim.symm.trans hl)) h0, hcd⟩
  · exact .inr ⟨h5, hl⟩

theorem Known.complete (h : Known c) (hr : Ran A c) (hn : ¬c.Torn) (hc : c.Connects) :
    c.Complete := by
  obtain ⟨ht, ha, hnamed⟩ := hr.connects_iff.mp hc
  cases h with
  | ended type => exact absurd type ht
  | @full p bs good fits ne room socks frame =>
    exact Call.Whole.complete ⟨p, bs, good, fits, ne, room, socks, frame⟩ ha
  | cut _ _ ne _ frame => exact absurd (frame.torn ne ha hnamed.1) hn

end Calls

section Runs

variable {A : Answers} {g : Bool} {ATYP : UInt8} {w : World Stream Session}

/-- As long as no message is torn by the end of reading, the result of each call depends only on
what was received, and what is connected is a complete request that was received. -/
theorem acts_on_received (h : Reaches A g ATYP w) (hroomy : ∀ c ∈ w.proto.calls, c.Roomy)
    (hn : ∀ c ∈ w.proto.calls, c.frame.type ≠ .endOfStream → ¬c.Torn) :
    ∀ c ∈ w.proto.calls, c.frame.type ≠ .endOfStream → c.Blind ∧
      (c.Connects → c.Complete ∧ c.frame.contents.map some <:+: inputs w.trace) := by
  intro c hmem ht
  obtain ⟨pre, post, hs⟩ := List.append_of_mem hmem
  have hseen := h.seen hs fun a ha => hroomy a (hs ▸ List.mem_append_left _ ha)
  refine ⟨hseen.known.blind ht (hn c hmem ht), fun hc => ⟨?_, hseen.received ht⟩⟩
  exact hseen.known.complete (h.ran hmem) (hn c hmem ht) hc

/-- A request that was received before the end. -/
theorem acts_on_received_request : ∃ w, Reaches anyAnswer true 0 w ∧ none ∈ inputs w.trace ∧
    ∃ c ∈ w.proto.calls, c.Connects ∧ c.Complete := by
  obtain ⟨w, hw, ho⟩ := sends_observe anyAnswer (fun _ _ _ _ => true) (fun _ _ _ _ => trivial)
    [[5], [1], [0], [5], [1, 0, 1], [10, 0, 0, 1], [0, 80], []] (fun _ _ => 0) (fun w => decide
      (none ∈ inputs w.trace ∧ (∀ c ∈ w.proto.calls, c.Roomy) ∧ (∀ c ∈ w.proto.calls, ¬c.Torn) ∧
        ∃ c ∈ w.proto.calls, c.frame.type ≠ .endOfStream ∧
          .connect '4' [49, 48, 46, 48, 46, 48, 46, 49] 80 true ∈ c.acts)) true (by decide +kernel)
  obtain ⟨hin, hroomy, hn, c, hmem, ht, hc⟩ := of_decide_eq_true ho
  have hconnects : c.Connects := ⟨_, _, _, _, hc⟩
  have hall := acts_on_received hw hroomy fun c hmem _ => hn c hmem
  exact ⟨w, hw, hin, c, hmem, hconnects, ((hall c hmem ht).2 hconnects).1⟩

/-- Behind the user name of SOCKS4A reading ends. The host is what the frame held before. -/
theorem not_acts_on_received : ∃ w, Reaches anyAnswer true 0 w ∧
    inputs w.trace = [4, 1, 0, 80, 0, 0, 0, 1, 0].map some ++ [none] ∧
      targets w.proto.calls = [('D', List.replicate 255 120, 80)] ∧
        ∃ c ∈ w.proto.calls, c.Connects ∧ ¬c.Complete := by
  obtain ⟨w, hw, ho⟩ := sends_observe anyAnswer (fun _ _ _ _ => true) (fun _ _ _ _ => trivial)
    [[4], [1, 0, 80, 0, 0, 0, 1], [0], []] (fun _ _ => 120) (fun w => decide
      (inputs w.trace = [4, 1, 0, 80, 0, 0, 0, 1, 0].map some ++ [none] ∧
        targets w.proto.calls = [('D', List.replicate 255 120, 80)] ∧
          ∃ c ∈ w.proto.calls, c.socks.VN = 4 ∧ c.frame.contents.length = 9 ∧ c.socks.Socks4A ∧
            .connect 'D' (List.replicate 255 120) 80 true ∈ c.acts)) true (by decide +kernel)
  obtain ⟨hin, ht, c, hmem, h4, hlen, hmarked, hc⟩ := of_decide_eq_true ho
  refine ⟨w, hw, hin, ht, c, hmem, ⟨_, _, _, _, hc⟩, fun hcomplete => ?_⟩
  cases hcomplete with
  | socks4 _ _ plain => exact plain hmarked
  | socks4a header4 _ _ _ contents =>
    rw [contents] at hlen
    simp only [List.length_append, List.length_cons, header4.length] at hlen
    omega
  | socks5 auth => exact absurd (h4.symm.trans auth.VN) (by decide)

end Runs

end Socks

end FrameTransporter
