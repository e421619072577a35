import FrameTransporter.Proto.Socks.Connects
import FrameTransporter.Proto.Socks.Segmentation

/-! # The grammar of SOCKS5

Before the end of reading, a stream on which a host is connected with version 5 began
with a greeting that offers the method without authentication. The request has a
command, an address type and an address of the grammar. Nobody looks at its version
and at its reserved byte.
-/

namespace FrameTransporter

open Hoare Intrusive

namespace Socks

open FrameTransporter.Stream

/-- The bytes start with a greeting that offers the method without authentication. -/
def Begins (bs : List UInt8) : Prop :=
  ∃ n methods, n ≠ 0 ∧ methods.length = n.toNat ∧ 0 ∈ methods ∧ 5 :: n :: methods <+: bs

theorem Begins.mono {bs bs' : List UInt8} (h : Begins bs) (hp : bs <+: bs') : Begins bs' := by
  obtain ⟨n, methods, hn, hl, h0, hb⟩ := h
  exact ⟨n, methods, hn, hl, h0, hb.trans hp⟩

section Greetings

variable {p : Parser} {m : Machine} {last bs : List UInt8} {b : UInt8}

/-- How the parser goes on behind a field. Only the greeting authorizes, and it is the first message
of the stream. -/
structure Goes (p : Parser) (last : List UInt8) (r : Parser × Option Verdict) : Prop where
  done : r.2.isSome → r.1.phase = .version
  VN : p.socks.VN ≠ 0 → r.1.socks.VN = p.socks.VN
  fresh : r.1.socks.VN = 0 → r.2 = some .close
  greeting : Greeted r.1.socks → r.1.phase ≠ .version →
    r.1.bytes = p.fields.flatten ++ last ∧ (p.phase = .version → p.socks.VN = 0) ∧
      (p.phase ≠ .version → Greeted p.socks)
  authorized : r.1.socks.authorized = true →
    p.socks.authorized = true ∨ Greeted p.socks ∧ p.phase = .methods ∧ 0 ∈ last

/-- A message that ends leaves a version that is known and the authorization. -/
theorem goes_done {r : Parser × Option Verdict} (h0 : p.socks.VN ≠ 0)
    (hv : r.1.socks.VN = p.socks.VN) (ha : r.1.socks.authorized = p.socks.authorized)
    (hp : r.1.phase = .version) : Goes p last r :=
  ⟨fun _ => hp, fun _ => hv, fun h => absurd (hv.symm.trans h) h0, fun _ h => absurd hp h,
    fun h => .inl (ha.symm.trans h)⟩

/-- A message that goes on is no greeting if it is of SOCKS4 or comes from an authorized client. -/
theorem goes_on {r : Parser × Option Verdict} (hr : r.2 = none)
    (hv : r.1.socks.VN = p.socks.VN) (ha : r.1.socks.authorized = p.socks.authorized)
    (h : p.socks.VN = 4 ∨ Authorized p.socks) : Goes p last r where
  done hs := by rw [hr] at hs; cases hs
  VN _ := hv
  fresh h0 := by
    rcases h with h4 | ⟨h5, -⟩
    · exact absurd (h4.symm.trans (hv.symm.trans h0)) (by decide)
    · exact absurd (h5.symm.trans (hv.symm.trans h0)) (by decide)
  greeting hg := by
    rcases h with h4 | ⟨-, h1⟩
    · exact absurd (h4.symm.trans (hv.symm.trans hg.VN)) (by decide)
    · exact absurd (h1.symm.trans (ha.symm.trans hg.authorized)) (by decide)
  authorized h1 := .inl (ha.symm.trans h1)

theorem goes_requested {this : Socks} (h0 : p.socks.VN ≠ 0) (hv : this.VN = p.socks.VN)
    (ha : this.authorized = p.socks.authorized) (fields : List (List UInt8)) :
    Goes p last (p.proceed last (requested this fields)) := by
  have hfound : (found this fields).1.VN = this.VN ∧
      (found this fields).1.authorized = this.authorized := by
    unfold found
    split_ifs <;> exact ⟨rfl, rfl⟩
  unfold requested
  split
  · exact goes_done h0 hv ha rfl
  · exact goes_done h0 (hfound.1.trans hv) (hfound.2.trans ha) rfl

theorem Parser.Good.goes (h : p.Good) : Goes p last (p.filled last) := by
  have hne := h.VN_ne_zero
  obtain ⟨this, phase, fields, part, room⟩ := p
  unfold Parser.filled
  cases phase with
  | version =>
    obtain ⟨h, hu⟩ := h
    cases h
    simp only [next]
    split_ifs with h4 h5 h0 ha
    · exact ⟨by rintro ⟨⟩, fun h => absurd h4.1 h, by rintro ⟨⟩,
        fun hg => (by cases hg.VN), fun h => .inl h⟩
    · exact ⟨by rintro ⟨⟩, fun h => absurd h5.1 h, by rintro ⟨⟩,
        fun _ _ => ⟨by simp [Parser.proceed, Parser.bytes], fun _ => h5.1, fun h => absurd rfl h⟩,
        fun h => .inl h⟩
    · exact ⟨fun _ => rfl, fun h => absurd h0 h, fun _ => rfl, fun _ hp => absurd rfl hp,
        fun h => .inl h⟩
    · exact goes_on rfl rfl rfl (.inr ⟨ha.1, ha.2⟩)
    · exact goes_done h0 rfl rfl rfl
  | header4 => exact goes_on rfl rfl rfl (.inl h.1)
  | userid =>
    obtain ⟨⟨header, hh, -⟩, -⟩ := h
    simp only [next]
    split_ifs
    · exact goes_on rfl rfl rfl (.inl hh.VN)
    · exact goes_on rfl rfl rfl (.inl hh.VN)
    · exact goes_requested (hne (by rintro ⟨⟩)) rfl rfl _
  | host =>
    obtain ⟨⟨header, userid, hh, -⟩, -⟩ := h
    simp only [next]
    split_ifs
    · exact goes_on rfl rfl rfl (.inl hh.VN)
    · exact goes_requested (hne (by rintro ⟨⟩)) rfl rfl _
  | nmethods =>
    obtain ⟨hg, -⟩ := h
    simp only [next]
    split_ifs
    · exact goes_done (hne (by rintro ⟨⟩)) rfl rfl rfl
    · exact ⟨by rintro ⟨⟩, fun _ => rfl,
        fun h => absurd (hg.VN.symm.trans h) (by decide),
        fun _ _ => ⟨by simp [Parser.proceed, Parser.bytes], by rintro ⟨⟩, fun _ => hg⟩,
        fun h => .inl h⟩
  | methods =>
    obtain ⟨hg, -⟩ := h
    simp only [next]
    split_ifs with h0
    · exact ⟨fun _ => rfl, fun _ => rfl, fun h => absurd (hg.VN.symm.trans h) (by decide),
        fun _ hp => absurd rfl hp, fun _ => .inr ⟨hg, rfl, h0⟩⟩
    · exact goes_done (hne (by rintro ⟨⟩)) rfl rfl rfl
  | header5 =>
    simp only [next]
    split_ifs
    · exact goes_on rfl rfl rfl (.inr h.1)
    · exact goes_on rfl rfl rfl (.inr h.1)
    · exact goes_on rfl rfl rfl (.inr h.1)
    · exact goes_done (hne (by rintro ⟨⟩)) rfl rfl rfl
  | length | ipv4 | name | ipv6 => exact goes_on rfl rfl rfl (.inr h.1)
  | port =>
    simp only [next]
    refine goes_requested (hne (by rintro ⟨⟩)) ?_ ?_ _ <;> rfl

/-- An authorized client stays authorized. -/
theorem Parser.filled_authorized (h : p.socks.authorized = true) :
    (p.filled last).1.socks.authorized = true := by
  have hreq : ∀ this fields, this.authorized = true →
      (p.proceed last (requested this fields)).1.socks.authorized = true := by
    intro this fields ha
    unfold requested found
    split_ifs <;> exact ha
  obtain ⟨this, phase, fields, part, room⟩ := p
  unfold Parser.filled
  cases phase with
  | header4 | length | ipv4 | name | ipv6 => exact h
  | port => exact hreq _ _ h
  | version | userid | host | nmethods | methods | header5 =>
    simp only [next]
    split_ifs <;> first | exact h | rfl | exact hreq _ _ h

/-- What is known of the bytes that led to a state. -/
structure Opened (bs : List UInt8) (m : Machine) : Prop where
  begins : m.parser.socks.authorized = true → Begins bs
  good : m.parser.socks.authorized = false → m.parser.Good
  closed : m.parser.socks.authorized = false → .close ∈ m.verdicts → m.parser.phase = .version
  fresh : m.parser.socks.authorized = false → m.parser.socks.VN = 0 → .close ∉ m.verdicts → bs = []
  greeting : Greeted m.parser.socks → m.parser.phase ≠ .version → bs = m.parser.bytes

theorem opened_init (ATYP : UInt8) : Opened [] (Machine.init ATYP) where
  begins h := by cases h
  good _ := Parser.good_start fun _ => ⟨rfl, rfl⟩
  closed _ h := by cases h
  fresh _ _ _ := rfl
  greeting _ h := absurd rfl h

theorem Parser.Good.room_version (h : p.Good) (hp : p.phase = .version) :
    p.part = [] ∧ p.room = 1 ∧ p.fields = [] := by
  obtain ⟨this, phase, fields, part, room⟩ := p
  dsimp only at hp
  subst hp
  obtain ⟨he, -⟩ := h
  cases he
  exact ⟨rfl, rfl, rfl⟩

theorem Opened.feed (h : Opened bs m) (b : UInt8) : Opened (bs ++ [b]) (m.feed b) := by
  have hpre : bs <+: bs ++ [b] := List.prefix_append ..
  by_cases hc : .close ∈ m.verdicts
  · rw [Machine.feed, if_pos hc]
    exact ⟨fun ha => (h.begins ha).mono hpre, h.good, h.closed, fun _ _ hn => absurd hc hn,
      fun hg hn => absurd (h.closed hg.authorized hc) hn⟩
  · rw [Machine.feed, if_neg hc]
    cases ha : m.parser.socks.authorized with
    | true =>
      have ha' : (m.parser.feed b).1.socks.authorized = true := by
        rw [Parser.feed]
        split
        · exact ha
        · exact Parser.filled_authorized ha
      have hfalse : (m.parser.feed b).1.socks.authorized ≠ false := by simp [ha']
      exact ⟨fun _ => (h.begins ha).mono hpre, fun h => absurd h hfalse, fun h => absurd h hfalse,
        fun h => absurd h hfalse, fun hg => absurd hg.authorized hfalse⟩
    | false =>
      have hgood := h.good ha
      have hlen : m.parser.part.length + [b].length = (m.parser.part ++ [b]).length :=
        (List.length_append ..).symm
      rw [Parser.feed]
      split
      · next hlt =>
        have hv : m.parser.phase ≠ .version := by
          intro hp
          obtain ⟨hpart, hroom, -⟩ := hgood.room_version hp
          simp [hpart, hroom] at hlt
        refine ⟨fun h1 => absurd (ha.symm.trans h1) (by decide), fun _ => hgood.part (hlen ▸ hlt),
          fun _ hm => absurd (by simpa using hm) hc, fun _ h0 => absurd h0 (hgood.VN_ne_zero hv),
          fun hg hp => ?_⟩
        rw [h.greeting hg hp, Parser.bytes, Parser.bytes, List.append_assoc]
      · next hlt =>
        have hname : m.parser.phase ≠ .name := by
          intro hp
          generalize m.parser = p at hgood hp ha
          obtain ⟨this, phase, fields, part, room⟩ := p
          dsimp only at hp
          subst hp
          exact absurd (ha.symm.trans hgood.1.authorized) (by decide)
        have hroom := hgood.lt_room hname
        have heq : m.parser.part.length + [b].length = m.parser.room := by
          simp only [List.length_append, List.length_singleton] at hlt ⊢
          omega
        have hnext := hgood.filled (List.cons_ne_nil b []) heq
        have hgoes : Goes m.parser (m.parser.part ++ [b]) _ := hgood.goes
        have hfirst : m.parser.phase = .version → m.parser.socks.VN = 0 → bs = m.parser.bytes := by
          intro hp h0
          obtain ⟨hpart, -, hfields⟩ := hgood.room_version hp
          rw [h.fresh ha h0 hc, Parser.bytes, hpart, hfields]
          rfl
        generalize m.parser.filled (m.parser.part ++ [b]) = r at hnext hgoes
        refine ⟨fun h1 => ?_, fun _ => hnext, fun _ hm => ?_, fun _ h0 hm => ?_, fun hg hp => ?_⟩
        · obtain ⟨hg, hp, h0⟩ := (hgoes.authorized h1).resolve_left (by simp [ha])
          have hbs := h.greeting hg (hp ▸ by rintro ⟨⟩)
          generalize m.parser = p at hgood hp hbs h0 heq
          obtain ⟨this, phase, fields, part, room⟩ := p
          dsimp only at hp
          subst hp
          obtain ⟨-, n, hn, hf, hr, -⟩ := hgood
          dsimp only at hf hr h0 heq
          refine ⟨n, part ++ [b], hn, ?_, h0, ?_⟩
          · rw [List.length_append, heq, hr]
          · rw [hbs, Parser.bytes, hf]
            exact List.prefix_rfl
        · refine hgoes.done ?_
          rcases List.mem_append.mp hm with hm | hm
          · exact absurd hm hc
          · exact Option.isSome_of_mem (Option.mem_toList.mp hm)
        · refine absurd (List.mem_append_right _ ?_) hm
          rw [hgoes.fresh h0]
          exact List.mem_singleton_self _
        · obtain ⟨hbytes, hv, hgreeted⟩ := hgoes.greeting hg hp
          have hbs : bs = m.parser.bytes := by
            by_cases hp : m.parser.phase = .version
            · exact hfirst hp (hv hp)
            · exact h.greeting (hgreeted hp) hp
          rw [hbytes, hbs, Parser.bytes, List.append_assoc]

theorem opened_run (ATYP : UInt8) (bs : List UInt8) : Opened bs ((Machine.init ATYP).run bs) := by
  induction bs using List.reverseRecOn with
  | nil => exact opened_init ATYP
  | append_singleton bs b ih =>
    rw [Machine.run_append]
    exact ih.feed b

end Greetings

/-- The frame of the call holds a CONNECT request of SOCKS5. -/
def Call.Request5 (c : Call) : Prop :=
  ∃ t addr port, Address t addr ∧ port.length = 2 ∧
    c.frame.contents = [5, 1, 0, t] ++ addr ++ port

/-- The frame of the call has the version of SOCKS5 and a reserved byte of zero. -/
def Call.Formal (c : Call) : Prop :=
  c.frame.contents[0]? = some 5 ∧ c.frame.contents[2]? = some 0

/-- The call selects the method without authentication for a greeting that offers it. -/
def Call.Selects (c : Call) : Prop :=
  ∃ n methods, c.Greets n methods ∧ 0 ∈ methods ∧ ∃ f ok, Act.write f [5, 0] ok ∈ c.acts

/-- The call answers with an error. -/
def Call.Errs (c : Call) : Prop :=
  ∃ f ok, Act.write f errorResponse ok ∈ c.acts ∨ Act.write f [5, 0xFF] ok ∈ c.acts

/-- A host is connected with version 5 only for a stream and a request of the grammar. Every other
message leads to an error or to the end of the stream. -/
def Grammatical (w : World Stream Session) : Prop :=
  ∀ c ∈ w.proto.calls, c.taken = true → c.socks.VN ≠ 4 →
    (c.Connects → (∃ bs, inputs w.trace = bs.map some ∧ Begins bs) ∧ c.Request5) ∧
    (¬c.Request5 → ¬c.Selects → ¬c.Connects ∧ (c.Errs ∨ c.Stops))

section Calls

variable {A : Answers} {c : Call}

theorem Ran.connects_iff (h : Ran A c) : c.Connects ↔
    c.frame.type ≠ .endOfStream ∧ Asks c.socks c.frame ∧ Named c.socks c.frame := by
  constructor
  · intro hc
    obtain ⟨t, ht, this, x, hd⟩ := h.request_of_connects hc
    obtain ⟨ha, hn⟩ := (decides hd).request t rfl
    refine ⟨ht, ha, hn.mp ?_⟩
    have hcar := h.carried ht hd
    obtain ⟨t', host, p, ok, hmem⟩ := hc
    generalize c.acts = acts at hcar hmem
    cases hcar with
    | refused => simp [refusal] at hmem
    | connected | declined => rfl
  · rintro ⟨ht, ha, hn⟩
    cases h with
    | ended type => exact absurd type ht
    | more _ decision =>
      obtain ⟨t, hv⟩ := ha.decision decision
      cases hv
    | done _ decision _ acts =>
      obtain ⟨t, hv⟩ := ha.decision decision
      cases hv
      have hnamed := ((decides decision).request t rfl).2.mpr hn
      unfold Call.Connects
      generalize c.acts = acts' at acts
      cases acts with
      | refused => cases hnamed
      | connected => exact ⟨_, _, _, true, List.mem_cons_self⟩
      | declined => exact ⟨_, _, _, false, List.mem_cons_self⟩

theorem Ran.taken_of_connects (h : Ran A c) (hc : c.Connects) : c.taken = true := by
  cases h with
  | ended _ taken | done _ _ taken => exact taken
  | more _ _ _ acts =>
    obtain ⟨t, host, p, ok, hmem⟩ := hc
    rw [acts] at hmem
    cases hmem

/-- In a frame of an authorized client with four vectors, the last one is the port. -/
theorem Parser.Good.request5 {p : Parser} (h : p.Good) (ha : Authorized p.socks)
    (hl : p.fields.length = 3) : ∃ v r a, p.fields = [[v], [p.socks.CD, r, p.socks.ATYP], a] ∧
      Address p.socks.ATYP a ∧ p.room = 2 := by
  obtain ⟨this, phase, fields, part, room⟩ := p
  dsimp only at ha hl ⊢
  cases phase with
  | version =>
    obtain ⟨h, -⟩ := h
    cases h
    cases hl
  | header4 => exact absurd (ha.VN.symm.trans h.1) (by decide)
  | userid =>
    obtain ⟨⟨header, hh, -⟩, -⟩ := h
    exact absurd (ha.VN.symm.trans hh.VN) (by decide)
  | host =>
    obtain ⟨⟨header, userid, hh, -⟩, -⟩ := h
    exact absurd (ha.VN.symm.trans hh.VN) (by decide)
  | nmethods | methods => exact absurd (ha.authorized.symm.trans h.1.authorized) (by decide)
  | header5 =>
    obtain ⟨-, ⟨v, hf⟩, -⟩ := h
    dsimp only at hf
    subst hf
    cases hl
  | ipv4 | length | name | ipv6 =>
    obtain ⟨-, ⟨v, r, hf⟩, -⟩ := h
    dsimp only at hf
    subst hf
    cases hl
  | port =>
    obtain ⟨-, ⟨v, r, a, hf, haddr⟩, hr, -⟩ := h
    exact ⟨v, r, a, hf, haddr, hr⟩

/-- A request of an authorized client has the grammar but for its version and its reserved byte. -/
theorem Call.Whole.request5 (h : c.Whole) (ha : Authorized c.socks) (hl : c.frame.vecLimit = 4) :
    ∃ v r addr port, Address c.socks.ATYP addr ∧ port.length = 2 ∧
      c.frame.contents = [v, c.socks.CD, r, c.socks.ATYP] ++ addr ++ port := by
  obtain ⟨p, bs, hg, -, -, hroom, hs, hx⟩ := h
  rw [hx.vecLimit, List.length_append] at hl
  obtain ⟨v, r, a, hf, haddr, hr⟩ := hg.request5 (hs ▸ ha) (by simpa using hl)
  refine ⟨v, r, a, p.part ++ bs, hs ▸ haddr, ?_, ?_⟩
  · rw [List.length_append, hroom, hr]
  · rw [hx.contents, hf, hs]
    simp

theorem Call.Whole.request5_iff (h : c.Whole) (ha : Authorized c.socks)
    (hl : c.frame.vecLimit = 4) (h1 : c.socks.CD = 1) : c.Request5 ↔ c.Formal := by
  obtain ⟨v, r, addr, port, haddr, hport, hc⟩ := h.request5 ha hl
  constructor
  · rintro ⟨t, addr', port', -, -, hc'⟩
    rw [Call.Formal, hc']
    exact ⟨rfl, rfl⟩
  · rintro ⟨hv, hr⟩
    rw [hc] at hv hr
    obtain rfl : v = 5 := Option.some.inj hv
    obtain rfl : r = 0 := Option.some.inj hr
    exact ⟨_, addr, port, haddr, hport, h1 ▸ hc⟩

/-- A message that connects nothing selects a method, leads to an error or ends the stream. -/
theorem Ran.selects_or (h : Ran A c) (hw : c.Whole) (hk : Known c) (ht : c.taken = true)
    (hc : ¬c.Connects) : c.Selects ∨ c.Errs ∨ c.Stops := by
  cases h with
  | ended type => exact absurd type hw.type
  | more _ _ taken => exact absurd (taken.symm.trans ht) (by decide)
  | @done this x v type decision _ acts =>
    unfold Call.Connects at hc
    have hselect : v = .select 0 → c.EndsWith (.select 0) := by
      rintro rfl
      exact ⟨type, this, x, decision⟩
    unfold Call.Selects Call.Errs Call.Stops
    generalize c.acts = acts' at acts hc
    cases acts with
    | connected | declined => exact absurd ⟨_, _, _, _, List.mem_cons_self⟩ hc
    | refused => exact .inr (.inl ⟨_, _, .inl List.mem_cons_self⟩)
    | rejected => exact .inr (.inl ⟨_, _, .inr List.mem_cons_self⟩)
    | closed => exact .inr (.inr ⟨_, List.mem_cons_of_mem _ List.mem_cons_self, by decide⟩)
    | selected =>
      obtain ⟨hadmits, v, hv, h0⟩ := (hselect rfl).select
      obtain ⟨n, hgreets⟩ := hk.greets type hadmits hv
      exact .inl ⟨n, _, hgreets, h0.mp rfl, _, _, List.mem_cons_self⟩

variable {ATYP : UInt8} {calls pre post : List Call} {this : Socks}

/-- The calls before a call lead to its protocol. -/
theorem Threaded.before (h : Threaded ATYP calls this) (hs : calls = pre ++ c :: post) :
    Threaded ATYP pre c.socks := by
  induction h generalizing post with
  | nil => exact absurd hs.symm (List.append_ne_nil_of_right_ne_nil _ (by simp))
  | concat h _ ih =>
    obtain rfl | ⟨post, d, rfl⟩ := List.eq_nil_or_concat' post
    · obtain ⟨rfl, he⟩ := List.append_inj' hs rfl
      cases he
      exact h
    · rw [← List.cons_append, ← List.append_assoc] at hs
      exact ih (List.append_inj' hs rfl).1

/-- An authorized client stays authorized. -/
theorem Threaded.authorized (h : Threaded ATYP calls this) :
    ∀ a ∈ calls, a.socks.authorized = true → this.authorized = true := by
  have hleaves : ∀ {c : Call} {this : Socks}, c.Leaves this → c.socks.authorized = true →
      this.authorized = true := fun h ha => h.authorized.elim (fun h => h.1.trans ha) fun h => h.2.1
  induction h with
  | nil => exact fun a ha => absurd ha List.not_mem_nil
  | concat _ hc ih =>
    rw [forall_concat]
    exact ⟨fun a hmem ha => hleaves hc (ih a hmem ha), hleaves hc⟩

end Calls

section Runs

variable {A : Answers} {g : Bool} {ATYP : UInt8} {w : World Stream Session} {c : Call}
  {pre post : List Call}

/-- Before a call that is not of SOCKS4 there was room for every field. -/
theorem Reaches.roomy_before (h : Reaches A g ATYP w) (hs : w.proto.calls = pre ++ c :: post)
    (h4 : c.socks.VN ≠ 4) : ∀ a ∈ pre, a.Roomy := by
  intro a ha ha4
  exact absurd (((h.threaded.before hs).VN a ha (ha4 ▸ by decide)).trans ha4) h4

/-- A stream with an authorized client began with a greeting. -/
theorem Reaches.begins (h : Reaches A true ATYP w) (hn : none ∉ inputs w.trace)
    (ha : Authorized w.proto.socks) : ∃ bs, inputs w.trace = bs.map some ∧ Begins bs := by
  obtain ⟨q, -, hs, -, -, hheard⟩ := h.feeds.known.tracks (h.threaded.roomy ha.VN)
  obtain ⟨bs, vs, hbs, hrun, -⟩ := hheard rfl hn
  refine ⟨bs, hbs, (opened_run ATYP bs).begins ?_⟩
  rw [hrun]
  exact hs ▸ ha.authorized

/-- Of a request that connects a host, only the version and the reserved byte are open. -/
theorem Reaches.request5_iff (h : Reaches A g ATYP w) (hn : none ∉ inputs w.trace)
    (hc : c ∈ w.proto.calls) (h5 : c.socks.VN = 5) (ha : Asks c.socks c.frame)
    (hnamed : Named c.socks c.frame) : c.Request5 ↔ c.Formal := by
  obtain ⟨pre, post, hs⟩ := List.append_of_mem hc
  have hwhole := (h.seen hs (h.roomy_before hs (h5 ▸ by decide))).whole hn
  rcases ha with ⟨h4, -⟩ | ⟨-, hauth, hl⟩
  · exact absurd (h5.symm.trans h4) (by decide)
  · exact hwhole.request5_iff ⟨h5, hauth⟩ hl hnamed.1

/-- Before the end of reading, SOCKS5 accepts only its grammar exactly when every request that asks
for a host has the version of SOCKS5 and a reserved byte of zero. -/
theorem grammatical_iff (h : Reaches A true ATYP w) (hn : none ∉ inputs w.trace) :
    Grammatical w ↔ ∀ c ∈ w.proto.calls, c.socks.VN = 5 → Asks c.socks c.frame →
      Named c.socks c.frame → c.Formal := by
  constructor
  · intro hgram c hc h5 ha hnamed
    obtain ⟨pre, post, hs⟩ := List.append_of_mem hc
    have h4 : c.socks.VN ≠ 4 := h5 ▸ by decide
    have hwhole := (h.seen hs (h.roomy_before hs h4)).whole hn
    have hconn := (h.ran hc).connects_iff.mpr ⟨hwhole.type, ha, hnamed⟩
    have hreq := ((hgram c hc ((h.ran hc).taken_of_connects hconn) h4).1 hconn).2
    exact (h.request5_iff hn hc h5 ha hnamed).mp hreq
  · intro hformal c hc ht h4
    obtain ⟨pre, post, hs⟩ := List.append_of_mem hc
    have hseen := h.seen hs (h.roomy_before hs h4)
    have hconn : c.Connects → (∃ bs, inputs w.trace = bs.map some ∧ Begins bs) ∧ c.Request5 := by
      intro hconn
      obtain ⟨-, ha, hnamed⟩ := (h.ran hc).connects_iff.mp hconn
      obtain ⟨h5, hauth, -⟩ := ha.resolve_left fun h => h4 h.1
      have hVN := h.threaded.VN c hc (h5 ▸ by decide)
      refine ⟨h.begins hn ⟨hVN.trans h5, h.threaded.authorized c hc hauth⟩, ?_⟩
      exact (h.request5_iff hn hc h5 ha hnamed).mpr (hformal c hc h5 ha hnamed)
    refine ⟨hconn, fun hreq hsel => ?_⟩
    have hnot : ¬c.Connects := fun hc => hreq (hconn hc).2
    exact ⟨hnot, ((h.ran hc).selects_or (hseen.whole hn) hseen.known ht hnot).resolve_left hsel⟩

/-- A client that asks for a host as it should. -/
theorem grammatical_iff_asks : ∃ w, Reaches anyAnswer true 0 w ∧
    targets w.proto.calls = [('4', dottedQuad 0x0A000001, 80)] ∧
    (Grammatical w ↔ ∀ c ∈ w.proto.calls, c.socks.VN = 5 → Asks c.socks c.frame →
      Named c.socks c.frame → c.Formal) := by
  obtain ⟨w, hw, hb⟩ := sends_observe anyAnswer (fun _ _ _ _ => true) (fun _ _ _ _ => trivial)
    asks (fun _ _ => 0)
    (fun w => (decide (none ∈ inputs w.trace), targets w.proto.calls))
    (false, [('4', dottedQuad 0x0A000001, 80)]) (by decide +kernel)
  obtain ⟨hn, ht⟩ := Prod.mk.inj hb
  exact ⟨w, hw, ht, grammatical_iff hw (of_decide_eq_false hn)⟩

/-- A request that calls itself version 6 and has a reserved byte of 7 is connected. -/
theorem not_grammatical_all : ¬∀ (A : Answers) (ATYP : UInt8) (w : World Stream Session),
    Reaches A true ATYP w → none ∉ inputs w.trace → Grammatical w := by
  intro h
  obtain ⟨w, hw, hb⟩ := sends_observe anyAnswer (fun _ _ _ _ => true) (fun _ _ _ _ => trivial)
    [[5], [1], [0], [6], [1, 7, 1], [10, 0, 0, 1], [0, 80]] (fun _ _ => 0)
    (fun w => (decide (none ∈ inputs w.trace), w.proto.calls.any fun c => c.taken = true ∧
      c.socks.VN = 5 ∧ c.frame.contents[0]? = some 6 ∧
      .connect '4' (dottedQuad 0x0A000001) 80 true ∈ c.acts)) (false, true) (by decide +kernel)
  obtain ⟨hn, hany⟩ := Prod.mk.inj hb
  obtain ⟨c, hc, hb⟩ := List.any_eq_true.mp hany
  obtain ⟨ht, h5, h6, hmem⟩ := of_decide_eq_true hb
  obtain ⟨-, t, addr, port, -, -, hreq⟩ :=
    (h _ _ w hw (of_decide_eq_false hn) c hc ht (h5 ▸ by decide)).1 ⟨_, _, _, _, hmem⟩
  rw [hreq] at h6
  cases h6

end Runs

end Socks

end FrameTransporter
