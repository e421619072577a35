import FrameTransporter.Proto.Socks.Session

/-! # Streams below the SOCKS delegate

In every run the read frame holds what the parser has read, as long as no user name
and no host outgrows a frame. A call of `read` sees a full frame, or a frame that
the end of reading cut off, or an end-of-stream frame.
-/

namespace FrameTransporter

open Hoare Intrusive

namespace Socks

open FrameTransporter.Stream ReadEvent

/-- There is room for one more byte of a user name or of a host that goes on. -/
def Call.Roomy (c : Call) : Prop :=
  c.socks.VN = 4 → 3 ≤ c.frame.vecLimit → c.frame.contents.getLast? ≠ some 0 →
    (c.frame.vecs.map Vec.capacity).sum + 1 + SIZEOF_VEC * c.frame.vecLimit ≤ c.frame.capacity

/-- What a call of `read` is made with. -/
inductive Known (c : Call) : Prop
  | full {p : Parser} {bs : List UInt8} (good : p.Good) (fits : p.Fits) (ne : bs ≠ [])
    (room : p.part.length + bs.length = p.room) (socks : c.socks = p.socks)
    (frame : Full (p.fields ++ [p.part ++ bs]) c.frame)
  | cut {p : Parser} (good : p.Good) (fits : p.Fits) (ne : p.bytes ≠ [])
    (socks : c.socks = p.socks) (frame : Holds p c.frame)
  | ended (type : c.frame.type = .endOfStream)

/-- A call of `read` with a frame that is full of what the parser knows. -/
def Call.Whole (c : Call) : Prop :=
  ∃ (p : Parser) (bs : List UInt8), p.Good ∧ p.Fits ∧ bs ≠ [] ∧
    p.part.length + bs.length = p.room ∧ c.socks = p.socks ∧
      Full (p.fields ++ [p.part ++ bs]) c.frame

theorem Call.Whole.type {c : Call} (h : c.Whole) : c.frame.type ≠ .endOfStream := by
  obtain ⟨p, bs, -, -, -, -, -, hx⟩ := h
  exact hx.type

/-- Requests of SOCKS4 and greetings of SOCKS5 are read only as the first message. -/
def Opens (this : Socks) : Prop := this.VN = 4 ∨ this.VN = 5 ∧ this.authorized = false

def Once (calls : List Call) (this : Socks) (vecLimit : ℕ) : Prop :=
  Opens this → 1 < vecLimit → ∀ a ∈ calls, a.taken = true → a.socks.VN = 0

/-- What is known of a call behind others. Its frame holds bytes that came in, and is full before
the end of reading. -/
structure Seen (ins : List (Option UInt8)) (c : Call) : Prop where
  known : Known c
  whole : none ∉ ins → c.Whole
  received : c.frame.type ≠ .endOfStream → c.frame.contents.map some <:+: ins

/-- What the read frame holds. A request of SOCKS4A whose user name leaves no room for a host
jams the stream. -/
inductive Filling (q : Parser) : Option Frame → Prop
  | start (eq : q = Parser.start q.socks) : Filling q none
  | frame {x : Frame} (holds : Holds q x) (fits : q.Fits) : Filling q (some x)
  | jammed {x : Frame} (phase : q.phase = .host) (part : q.part = []) (full : Full q.fields x)
    (fits : q.fields.flatten.length + SIZEOF_VEC * q.fields.length ≤ FRAME_SIZE) :
    Filling q (some x)

/-- The parser has read what came in, and its verdicts were carried out. -/
def Heard (A : Answers) (ATYP : UInt8) (p : Session) (ins : List (Option UInt8)) (q : Parser) :
    Prop :=
  ∃ bs vs, ins = bs.map some ∧ (Machine.init ATYP).run bs = ⟨q, vs⟩ ∧
    List.Forall₂ (fun c v => Carried A c.id c.writeOpen v c.acts)
      (p.calls.filter fun c => c.taken) vs

/-- The fields of the messages in these bytes fit in a frame. -/
def Snug (ATYP : UInt8) (ins : List (Option UInt8)) : Prop :=
  ∀ bs : List UInt8, bs.map some <+: ins → ((Machine.init ATYP).run bs).parser.Fits

theorem Snug.mono {ATYP : UInt8} {ins ins' : List (Option UInt8)} (h : Snug ATYP ins')
    (hp : ins <+: ins') : Snug ATYP ins := fun bs hb => h bs (hb.trans hp)

/-- What is known of the protocol, of what came in and of the read frame. Under `g` nothing was
read after the delegate stopped reading. -/
structure Sim (A : Answers) (g : Bool) (ATYP : UInt8) (p : Session) (ins : List (Option UInt8))
    (o : Option Frame) : Prop where
  ran : ∀ c ∈ p.calls, Ran A c
  seen : ∀ pre c post, p.calls = pre ++ c :: post → (∀ a ∈ pre, a.Roomy) → Seen ins c
  roomy : g = true → none ∉ ins → Snug ATYP ins → ∀ c ∈ p.calls, c.Roomy
  threaded : Threaded ATYP p.calls p.socks
  once : ∀ pre c post, p.calls = pre ++ c :: post → c.frame.type ≠ .endOfStream →
    Once pre c.socks c.frame.vecLimit
  opens : ∀ x, o = some x → Once p.calls p.socks x.vecLimit
  tracks : (∀ c ∈ p.calls, c.Roomy) → ∃ q : Parser, q.Good ∧ p.socks = q.socks ∧ Filling q o ∧
    q.bytes.map some <:+ ins ∧ (g = true → none ∉ ins → Heard A ATYP p ins q)

/-- Under `g` reading goes on only until the delegate stops it. -/
def Going (g : Bool) (p : Session) : Prop := g = true → ¬∃ c ∈ p.calls, c.Stops

section Frames

variable {x : Frame} {q : Parser} {fields : List (List UInt8)} {last : List UInt8}

theorem contents_layout {data : ℕ → UInt8} {off : ℕ}
    (h : slice data off fields.flatten.length = fields.flatten) :
    (layout off fields).flatMap (fun v => slice data v.offset v.position) = fields.flatten := by
  induction fields generalizing off with
  | nil => rfl
  | cons field fields ih =>
    rw [List.flatten_cons, List.length_append, slice_add] at h
    obtain ⟨h₁, h₂⟩ := List.append_inj h (by simp)
    rw [layout, List.flatMap_cons, ih h₂, List.flatten_cons, h₁]

theorem Full.contents (h : Full fields x) : x.contents = fields.flatten := by
  rw [Frame.contents, h.vecs]
  exact contents_layout h.data

theorem Holds.contents (h : Holds q x) : x.contents = q.bytes := by
  have hd := h.data
  rw [length_bytes, slice_add, Parser.bytes] at hd
  obtain ⟨h₁, h₂⟩ := List.append_inj hd (by simp)
  rw [Frame.contents, h.vecs, List.flatMap_append]
  have hf : (layout 0 q.fields).flatMap x.receivedBytes = q.fields.flatten := contents_layout h₁
  rw [hf, List.flatMap_cons, List.flatMap_nil, List.append_nil, Frame.receivedBytes]
  rw [Nat.zero_add] at h₂
  exact congrArg (q.fields.flatten ++ ·) h₂

theorem sum_capacity_layout (off : ℕ) (fields : List (List UInt8)) :
    ((layout off fields).map Vec.capacity).sum = fields.flatten.length := by
  induction fields generalizing off with
  | nil => rfl
  | cons field fields ih => simp [layout, ih]

/-- Behind the last vector there is none under the cursor. -/
theorem Full.getVec (h : Full fields x) : x.getVec = .ok none := by
  rw [Frame.getVec, if_pos]
  rw [h.cursor, h.vecLimit]

theorem Address.length_le {t : UInt8} {a : List UInt8} (h : Address t a) : a.length ≤ 256 := by
  cases h with
  | ipv4 h => omega
  | @name n a h =>
    have := n.toNat_lt
    rw [List.length_cons]
    omega
  | ipv6 h => omega

/-- But for the texts of SOCKS4 the sizes of the fields are bounded by the protocol. -/
theorem Parser.Good.small (h : q.Good) (hu : q.phase = .userid → q.part = [])
    (hh : q.phase ≠ .host) : q.fields.flatten.length + q.room ≤ 262 ∧ q.fields.length ≤ 3 := by
  obtain ⟨this, phase, fields, part, room⟩ := q
  cases phase with
  | host => exact absurd rfl hh
  | version =>
    obtain ⟨h, -⟩ := h
    cases h
    simp
  | header4 =>
    obtain ⟨-, hf, hr, -⟩ := h
    dsimp only at hf hr
    subst hf hr
    simp
  | userid =>
    obtain ⟨⟨header, hh, hf⟩, -, hr⟩ := h
    have hp : part = [] := hu rfl
    dsimp only at hf hr
    subst hf hr hp
    simp [hh.length]
  | nmethods =>
    obtain ⟨-, hf, -, hr⟩ := h
    dsimp only at hf hr
    subst hf hr
    simp
  | methods =>
    obtain ⟨-, n, -, hf, hr, -⟩ := h
    have hn := n.toNat_lt
    dsimp only at hf hr
    subst hf hr
    simp only [List.flatten_cons, List.flatten_nil,
      List.length_append, List.length_cons, List.length_nil]
    omega
  | header5 =>
    obtain ⟨-, ⟨v, hf⟩, hr, -⟩ := h
    dsimp only at hf hr
    subst hf hr
    simp
  | ipv4 | ipv6 =>
    obtain ⟨-, ⟨v, r, hf⟩, -, hr, -⟩ := h
    dsimp only at hf hr
    subst hf hr
    simp
  | length =>
    obtain ⟨-, ⟨v, r, hf⟩, -, hr, -⟩ := h
    dsimp only at hf hr
    subst hf hr
    simp
  | name =>
    obtain ⟨-, ⟨v, r, hf⟩, -, n, rest, -, hr, -⟩ := h
    have hn := n.toNat_lt
    dsimp only at hf hr
    subst hf hr
    simp only [List.flatten_cons, List.flatten_nil,
      List.length_append, List.length_cons, List.length_nil]
    omega
  | port =>
    obtain ⟨-, ⟨v, r, a, hf, ha⟩, hr, -⟩ := h
    have hl := ha.length_le
    dsimp only at hf hr
    subst hf hr
    simp only [List.flatten_cons, List.flatten_nil,
      List.length_append, List.length_cons, List.length_nil]
    omega

/-- So they fit. -/
theorem Parser.Good.fits (h : q.Good) (hu : q.phase = .userid → q.part = [])
    (hh : q.phase ≠ .host) : q.Fits := by
  have hsmall := h.small hu hh
  simp only [Parser.Fits, FRAME_SIZE, SIZEOF_VEC]
  omega

theorem Parser.Good.room_pos (h : q.Good) (hp : q.part = []) : 0 < q.room := by
  by_cases hn : q.phase = .name
  · obtain ⟨this, phase, fields, part, room⟩ := q
    dsimp only at hn hp
    subst hn hp
    obtain ⟨-, -, -, n, rest, hpart, -⟩ := h
    cases hpart
  · have hlt := h.lt_room hn
    rwa [hp] at hlt

/-- Room for one more byte of a user name or of a host that goes on. -/
def Spare (q : Parser) (last : List UInt8) : Prop :=
  q.socks.VN = 4 → 3 ≤ q.fields.length + 1 → last.getLast? ≠ some 0 →
    q.fields.flatten.length + last.length + 1 + SIZEOF_VEC * (q.fields.length + 1) ≤ FRAME_SIZE

/-- An enlarged field fits. -/
theorem fits_grown {phase : Phase} {n : ℕ} (hl : last.length = q.room) (hs : Spare q last)
    (hgood : Parser.Good { q with phase, part := last, room := q.room + n }) :
    Parser.Fits { q with phase, part := last, room := q.room + n } := by
  obtain ⟨this, phase', fields, part, room⟩ := q
  dsimp only at hl hgood ⊢
  have hlast : 0 ∉ last → last.getLast? ≠ some 0 := fun h h0 => h (List.mem_of_getLast? h0)
  cases phase with
  | userid =>
    obtain ⟨⟨header, hh, hf⟩, h0, hr⟩ := hgood
    dsimp only at hf h0 hr
    subst hf
    have := hs hh.VN (by simp) (hlast h0)
    dsimp only at this
    simp only [Parser.Fits]
    omega
  | host =>
    obtain ⟨⟨header, userid, hh, -, -, hf⟩, h0, hr⟩ := hgood
    dsimp only at hf h0 hr
    subst hf
    have := hs hh.VN (by simp) (hlast h0)
    dsimp only at this
    simp only [Parser.Fits]
    omega
  | _ => exact hgood.fits (by rintro ⟨⟩) (by rintro ⟨⟩)

/-- A call with a full frame leaves the frame to the parser behind the field. -/
theorem Full.decided {bs : List UInt8} {y : Frame} {this : Socks} {v : Option Verdict}
    (hx : Full (q.fields ++ [q.part ++ bs]) x) (hq : q.Good) (hf : q.Fits) (hbs : bs ≠ [])
    (hl : q.part.length + bs.length = q.room) (hs : Spare q (q.part ++ bs))
    (hd : decision q.socks x = .ok (this, y, v)) :
    (q.filled (q.part ++ bs)).2 = v ∧ (q.filled (q.part ++ bs)).1.socks = this ∧
      Filling (q.filled (q.part ++ bs)).1 (if v.isSome then none else some y) := by
  have hfollow := hq.follows hbs hl hx
  have hgood := hq.filled hbs hl
  have hlen : (q.part ++ bs).length = q.room := (List.length_append ..).trans hl
  unfold Parser.filled at hgood ⊢
  generalize q.part ++ bs = last at *
  cases hn : next q.socks q.fields last q.phase with
  | done this' v' =>
    rw [hn] at hfollow
    cases hd.symm.trans hfollow
    exact ⟨rfl, rfl, .start rfl⟩
  | grow phase n =>
    rw [hn] at hfollow hgood
    have hfits := fits_grown hlen hs hgood
    have hholds := hx.grow q.socks phase (n := n) (by
      simp only [Parser.Fits, FRAME_SIZE, SIZEOF_VEC] at hfits
      omega)
    rw [hlen] at hholds
    cases hd.symm.trans hfollow
    exact ⟨rfl, rfl, .frame hholds hfits⟩
  | append phase this' n =>
    rw [hn] at hfollow hgood
    have h0 : 0 < n := hgood.room_pos rfl
    by_cases hfits : Parser.Fits ⟨this', phase, q.fields ++ [last], [], n⟩
    · obtain ⟨i, y', ha, hholds⟩ := hx.append this' phase h0 hfits
      have hfollow : decision q.socks x = .ok (this', y', none) := by
        rw [Follows, ha] at hfollow
        exact hfollow
      cases hd.symm.trans hfollow
      exact ⟨rfl, rfl, .frame hholds hfits⟩
    · obtain rfl : phase = .host := by
        by_contra hp
        exact hfits (hgood.fits (fun _ => rfl) hp)
      obtain ⟨⟨header, userid, -, -, -, hfields⟩, -⟩ := hgood
      have hfields : q.fields ++ [last] = [[4], header, userid ++ [0]] := hfields
      have hsize : (q.fields ++ [last]).flatten.length +
          SIZEOF_VEC * (q.fields ++ [last]).length ≤ FRAME_SIZE := by
        simp only [List.flatten_concat, List.length_append, List.length_singleton, hlen]
        exact hf
      have hnone := hx.append_none (n := n) (by
        rw [hfields]
        simp [FRAME_SIZE, SIZEOF_VEC]) (by
        have := next_append_lt hn
        simp only [FRAME_SIZE] at hsize
        omega) (not_le.mp hfits)
      have hfollow : decision q.socks x = .ok (this', x, none) := by
        rw [Follows, hnone] at hfollow
        exact hfollow
      cases hd.symm.trans hfollow
      exact ⟨rfl, rfl, .jammed rfl rfl hx hsize⟩

end Frames

section Closure

variable {A : Answers} {g : Bool} {ATYP : UInt8} {p : Session} {ins : List (Option UInt8)}
  {o : Option Frame} {x : Frame} {v : Vec} {bytes : List UInt8} {q : Parser}

theorem none_not_mem_append (h : none ∉ ins ++ bytes.map some) : none ∉ ins :=
  fun hn => h (List.mem_append_left _ hn)

theorem mem_of_forall₂ {α β : Type} {R : α → β → Prop} {l : List α} {l' : List β} {b : β}
    (h : List.Forall₂ R l l') (hb : b ∈ l') : ∃ a ∈ l, R a b := by
  induction h with
  | nil => cases hb
  | cons hr _ ih =>
    rcases List.mem_cons.mp hb with rfl | hb
    · exact ⟨_, List.mem_cons_self, hr⟩
    · obtain ⟨a, ha, hab⟩ := ih hb
      exact ⟨a, List.mem_cons_of_mem _ ha, hab⟩

theorem Carried.acts_close {f : FrameId} {writeOpen : Bool} {acts : List Act}
    (h : Carried A f writeOpen .close acts) :
    acts = [.frameReturn f, .cntl {.WRITE_SHUTDOWN, .READ_STOP}] := by
  cases h
  rfl

/-- While reading goes on, the stream was not ended. -/
theorem Going.close_not_mem (hg : Going g p) (h : g = true) {vs : List Verdict}
    (hc : List.Forall₂ (fun c v => Carried A c.id c.writeOpen v c.acts)
      (p.calls.filter fun c => c.taken) vs) : .close ∉ vs := by
  intro hv
  obtain ⟨c, hmem, hcar⟩ := mem_of_forall₂ hc hv
  refine hg h ⟨c, List.mem_of_mem_filter hmem, {.WRITE_SHUTDOWN, .READ_STOP}, ?_, by decide⟩
  rw [hcar.acts_close]
  simp

theorem Heard.part (h : Heard A ATYP p ins q) (hg : Going g p) (h1 : g = true)
    (hb : q.part.length + bytes.length < q.room) :
    Heard A ATYP p (ins ++ bytes.map some) { q with part := q.part ++ bytes } := by
  obtain ⟨bs, vs, rfl, hrun, hc⟩ := h
  refine ⟨bs ++ bytes, vs, by simp, ?_, hc⟩
  have hopen := hg.close_not_mem h1 hc
  rw [Machine.run_append, hrun, Machine.run_part hopen hb]

/-- What is known of the calls stays known when more comes in. -/
theorem Sim.seen_mono (h : Sim A g ATYP p ins o) {ins' : List (Option UInt8)} (hp : ins <+: ins') :
    ∀ pre c post, p.calls = pre ++ c :: post → (∀ a ∈ pre, a.Roomy) → Seen ins' c := by
  intro pre c post hs hr
  have hc := h.seen pre c post hs hr
  exact ⟨hc.known, fun hn => hc.whole fun hm => hn (hp.subset hm),
    fun ht => (hc.received ht).trans hp.isInfix⟩

theorem Sim.roomy_mono (h : Sim A g ATYP p ins o) {ins' : List (Option UInt8)} (hp : ins <+: ins') :
    g = true → none ∉ ins' → Snug ATYP ins' → ∀ c ∈ p.calls, c.Roomy := fun h1 hn hs =>
  h.roomy h1 (fun hm => hn (hp.subset hm)) (hs.mono hp)

theorem suffix_append {ins : List (Option UInt8)} {bs : List UInt8} (h : bs.map some <:+ ins)
    (bytes : List UInt8) : (bs ++ bytes).map some <:+ ins ++ bytes.map some := by
  obtain ⟨t, rfl⟩ := h
  exact ⟨t, by simp⟩

theorem vecLimit_stored : (x.stored v bytes).vecLimit = x.vecLimit := by
  simp [Frame.stored, Frame.vecLimit, Frame.advanced, Frame.write]

theorem vecLimit_filledUp : (x.filledUp v bytes).vecLimit = x.vecLimit := vecLimit_stored

/-- The vector under the cursor of the read frame is the one that is being filled. -/
theorem Filling.getVec (h : Filling q (some x)) (hv : x.getVec = .ok (some v)) :
    Holds q x ∧ q.Fits ∧ v = q.vec := by
  cases h with
  | frame hh hf =>
    rw [hh.getVec] at hv
    cases hv
    exact ⟨hh, hf, rfl⟩
  | jammed _ _ hh =>
    rw [hh.getVec] at hv
    cases hv

theorem Sim.store (hg : Going g p) (h : Sim A g ATYP p ins (some x))
    (hv : x.getVec = .ok (some v)) (hb : v.position + bytes.length < v.limit) :
    Sim A g ATYP p (ins ++ bytes.map some) (some (x.stored v bytes)) where
  ran := h.ran
  seen := h.seen_mono (List.prefix_append _ _)
  roomy := h.roomy_mono (List.prefix_append _ _)
  threaded := h.threaded
  once := h.once
  opens := by
    rintro _ ⟨⟩
    rw [vecLimit_stored]
    exact h.opens x rfl
  tracks hr := by
    obtain ⟨q, hq, hs, hf, hin, hheard⟩ := h.tracks hr
    obtain ⟨hh, hfits, rfl⟩ := hf.getVec hv
    refine ⟨{ q with part := q.part ++ bytes }, hq.part hb, hs, .frame hh.store hfits, ?_, ?_⟩
    · simpa [Parser.bytes] using suffix_append hin bytes
    exact fun h1 hn => (hheard h1 (none_not_mem_append hn)).part hg h1 hb

/-- A frame has one vector that is not full, the last one. -/
theorem Sim.next (h : Sim A g ATYP p ins (some x)) (hv : x.getVec = .ok (some v))
    (hn : x.vecPosition + 1 ≠ x.vecLimit) :
    Sim A g ATYP p (ins ++ bytes.map some) (some (x.filledUp v bytes)) where
  ran := h.ran
  seen := h.seen_mono (List.prefix_append _ _)
  roomy := h.roomy_mono (List.prefix_append _ _)
  threaded := h.threaded
  once := h.once
  opens := by
    rintro _ ⟨⟩
    rw [vecLimit_filledUp]
    exact h.opens x rfl
  tracks hr := by
    obtain ⟨q, -, -, hf, -⟩ := h.tracks hr
    obtain ⟨hh, -, -⟩ := hf.getVec hv
    exact absurd (by rw [hh.cursor, hh.vecLimit]) hn

/-- The calls with one more. -/
theorem seen_concat {calls : List Call} {c : Call} {ins : List (Option UInt8)}
    (h : ∀ pre c post, calls = pre ++ c :: post → (∀ a ∈ pre, a.Roomy) → Seen ins c)
    (hc : (∀ a ∈ calls, a.Roomy) → Seen ins c) :
    ∀ pre a post, calls ++ [c] = pre ++ a :: post → (∀ a ∈ pre, a.Roomy) → Seen ins a := by
  intro pre a post hsplit hpre
  rcases concat_eq_split hsplit with ⟨-, rfl, rfl⟩ | ⟨post', -, hold⟩
  · exact hc hpre
  · exact h pre a post' hold hpre

theorem forall_concat {α : Type} {P : α → Prop} {l : List α} {a : α} :
    (∀ b ∈ l ++ [a], P b) ↔ (∀ b ∈ l, P b) ∧ P a := by
  simp only [List.mem_append, List.mem_singleton, or_imp, forall_and, forall_eq]

/-- A version that is known stays. -/
theorem Call.Leaves.VN {c : Call} {this : Socks} (h : c.Leaves this) (h0 : c.socks.VN ≠ 0) :
    this.VN = c.socks.VN := by
  unfold Call.Leaves at h
  split at h
  · rw [h]
  · obtain ⟨x, v, hd⟩ := h
    exact decision_VN hd h0

theorem Threaded.VN {calls : List Call} {this : Socks} (h : Threaded ATYP calls this) :
    ∀ a ∈ calls, a.socks.VN ≠ 0 → this.VN = a.socks.VN := by
  induction h with
  | nil => exact fun a ha => absurd ha List.not_mem_nil
  | @concat calls c this _ hc ih =>
    rw [forall_concat]
    refine ⟨fun a ha h0 => ?_, hc.VN⟩
    have hVN := ih a ha h0
    exact (hc.VN (hVN ▸ h0)).trans hVN

/-- There is room for a field that goes on. -/
theorem Call.Roomy.spare {c : Call} {last : List UInt8} (h : c.Roomy) (hs : c.socks = q.socks)
    (hx : Full (q.fields ++ [last]) c.frame) (hne : last ≠ []) : Spare q last := by
  intro h4 hlen hlast
  have hsum : (c.frame.vecs.map Vec.capacity).sum = q.fields.flatten.length + last.length := by
    rw [hx.vecs, sum_capacity_layout, List.flatten_concat, List.length_append]
  have hlim : c.frame.vecLimit = q.fields.length + 1 := by
    rw [hx.vecLimit, List.length_append]
    rfl
  have hroom := h (hs ▸ h4) (hlim ▸ hlen) (by
    rw [hx.contents, List.flatten_concat, List.getLast?_append_of_ne_nil _ hne]
    exact hlast)
  rwa [hsum, hlim, hx.capacity] at hroom

/-- Where the parser has room to go on, the frame has. -/
theorem Full.roomy {c : Call} {last : List UInt8} (hx : Full (q.fields ++ [last]) c.frame)
    (hs : c.socks = q.socks) (hq : q.Good) (hne : last ≠ []) (hl : last.length = q.room)
    (hfit : (q.filled last).1.Fits) : c.Roomy := by
  intro h4 hlen hlast
  have hsum : (c.frame.vecs.map Vec.capacity).sum = q.fields.flatten.length + last.length := by
    rw [hx.vecs, sum_capacity_layout, List.flatten_concat, List.length_append]
  have hlim : c.frame.vecLimit = q.fields.length + 1 := by
    rw [hx.vecLimit, List.length_append]
    rfl
  rw [hx.contents, List.flatten_concat, List.getLast?_append_of_ne_nil _ hne] at hlast
  rw [hsum, hlim, hx.capacity]
  rw [hlim] at hlen
  rw [hs] at h4
  obtain ⟨this, phase, fields, part, room⟩ := q
  dsimp only at *
  have hgrown : ∀ phase, next this fields last phase = .grow phase 1 →
      (Parser.filled ⟨this, phase, fields, part, room⟩ last).1.Fits →
      fields.flatten.length + last.length + 1 + SIZEOF_VEC * (fields.length + 1) ≤ FRAME_SIZE := by
    intro phase hnext hfit
    rw [Parser.filled, hnext] at hfit
    simp only [Parser.proceed, Parser.Fits] at hfit
    omega
  cases phase with
  | version =>
    obtain ⟨hq, -⟩ := hq
    cases hq
    exact absurd hlen (by decide)
  | header4 =>
    have hf : fields = [[4]] := hq.2.1
    rw [hf] at hlen
    exact absurd hlen (by decide)
  | userid => exact hgrown .userid (if_pos hlast) hfit
  | host => exact hgrown .host (if_pos hlast) hfit
  | nmethods | methods => exact absurd (h4.symm.trans hq.1.VN) (by decide)
  | header5 | ipv4 | length | name | ipv6 | port => exact absurd (h4.symm.trans hq.1.VN) (by decide)

/-- A call that leaves its frame to be filled further does not end a message. -/
theorem Once.concat {calls : List Call} {c : Call} {this : Socks} {n : ℕ} (h : Once calls this n)
    (hc : c.taken = false) : Once (calls ++ [c]) this n := by
  intro ho hn
  rw [forall_concat]
  exact ⟨h ho hn, fun ht => absurd (hc.symm.trans ht) (by decide)⟩

/-- The first message starts with the version of the stream. -/
theorem Once.decided {calls : List Call} {this this' : Socks} {x y : Frame}
    (h : Once calls this x.vecLimit) (ht : Threaded ATYP calls this)
    (hd : decision this x = .ok (this', y, none)) : Once calls this' y.vecLimit := by
  intro ho _ a hmem htaken
  have hdec := decides hd
  by_cases h0 : this.VN = 0
  · by_contra hne
    exact hne ((ht.VN a hmem hne).symm.trans h0)
  · have ho' : Opens this := by
      rwa [Opens, ← hdec.VN h0, ← (hdec.authorized (by simp)).1]
    refine h ho' ?_ a hmem htaken
    by_contra hlim
    rw [decision_opens ho' (Nat.le_of_not_lt hlim)] at hd
    cases hd

/-- The verdict of a call was carried out. -/
theorem Ran.carried {c : Call} {this : Socks} {y : Frame} {v : Verdict} (h : Ran A c)
    (ht : c.frame.type ≠ .endOfStream) (hd : decision c.socks c.frame = .ok (this, y, some v)) :
    Carried A c.id c.writeOpen v c.acts := by
  cases h with
  | ended type => exact absurd type ht
  | more _ decision =>
    rw [hd] at decision
    cases decision
  | done _ decision _ acts =>
    rw [hd] at decision
    cases decision
    exact acts

variable {w w' : World Stream Session} {c : Call}

theorem Noted.once (hn : Noted A w c w')
    (h : ∀ pre c post, w.proto.calls = pre ++ c :: post → c.frame.type ≠ .endOfStream →
      Once pre c.socks c.frame.vecLimit)
    (hc : c.frame.type ≠ .endOfStream → Once w.proto.calls c.socks c.frame.vecLimit) :
    ∀ pre a post, w'.proto.calls = pre ++ a :: post → a.frame.type ≠ .endOfStream →
      Once pre a.socks a.frame.vecLimit := by
  intro pre a post hs ht
  rw [hn.calls] at hs
  rcases concat_eq_split hs with ⟨-, rfl, rfl⟩ | ⟨post', -, hold⟩
  · exact hc ht
  · exact h pre a post' hold ht

theorem Sim.filled (hg : Going g w.proto) (h : Sim A g ATYP w.proto ins (some x))
    (hv : x.getVec = .ok (some v)) (hpos : v.position < v.limit)
    (hl : v.position + bytes.length = v.limit) (hx : c.frame = x.filledUp v bytes)
    (hn : Noted A w c w') : Sim A g ATYP w'.proto (ins ++ bytes.map some)
      (if c.taken then none else some (w'.heap c.id)) := by
  have hne : bytes ≠ [] := by
    rintro rfl
    exact absurd hl hpos.ne
  have honce : Once w.proto.calls c.socks c.frame.vecLimit := by
    rw [hn.socks, hx, vecLimit_filledUp]
    exact h.opens x rfl
  refine ⟨?_, ?_, ?_, hn.threaded h.threaded, hn.once h.once fun _ => honce, ?_, fun hr => ?_⟩
  · rw [hn.calls, forall_concat]
    exact ⟨h.ran, hn.ran⟩
  · rw [hn.calls]
    refine seen_concat (h.seen_mono (List.prefix_append _ _)) fun hr => ?_
    obtain ⟨q, hq, hs, hf, hin, -⟩ := h.tracks hr
    obtain ⟨hh, hfits, rfl⟩ := hf.getVec hv
    have hfull : Full (q.fields ++ [q.part ++ bytes]) c.frame := hx ▸ hh.filled hl
    have hsocks : c.socks = q.socks := hn.socks.trans hs
    refine ⟨.full hq hfits hne hl hsocks hfull,
      fun _ => ⟨q, bytes, hq, hfits, hne, hl, hsocks, hfull⟩, fun _ => ?_⟩
    rw [hfull.contents]
    simpa [Parser.bytes] using (suffix_append hin bytes).isInfix
  · intro h1 hmem hsnug
    have hold := h.roomy_mono (List.prefix_append _ _) h1 hmem hsnug
    rw [hn.calls, forall_concat]
    refine ⟨hold, ?_⟩
    obtain ⟨q, hq, hs, hf, -, hheard⟩ := h.tracks hold
    obtain ⟨hh, hfits, rfl⟩ := hf.getVec hv
    have hfull : Full (q.fields ++ [q.part ++ bytes]) c.frame := hx ▸ hh.filled hl
    obtain ⟨bs, vs, rfl, hrun, hc⟩ := hheard h1 (none_not_mem_append hmem)
    have hopen := hg.close_not_mem h1 hc
    have hfit := hsnug (bs ++ bytes) (by simp)
    rw [Machine.run_append, hrun, Machine.run_filled (m := ⟨q, vs⟩) hopen hne hl] at hfit
    exact hfull.roomy (hn.socks.trans hs) hq (List.append_ne_nil_of_right_ne_nil _ hne)
      ((List.length_append ..).trans hl) hfit
  · intro y hy
    split at hy
    · cases hy
    · next hfalse =>
      cases hy
      rw [hn.calls]
      refine Once.concat ?_ (Bool.eq_false_of_not_eq_true hfalse)
      have ht : c.frame.type ≠ .endOfStream := fun ht => by
        cases hn.ran with
        | ended _ taken => exact hfalse taken
        | more type => exact type ht
        | done type => exact type ht
      obtain ⟨y, v, hd, htaken, hheap⟩ := hn.decided ht
      cases v with
      | some v => exact absurd htaken hfalse
      | none =>
        rw [hheap rfl]
        exact honce.decided (hn.socks ▸ h.threaded) hd
  · rw [hn.calls, forall_concat] at hr
    obtain ⟨q, hq, hs, hf, hin, hheard⟩ := h.tracks hr.1
    obtain ⟨hh, hfits, rfl⟩ := hf.getVec hv
    have hfull : Full (q.fields ++ [q.part ++ bytes]) c.frame := hx ▸ hh.filled hl
    have hsocks : c.socks = q.socks := hn.socks.trans hs
    obtain ⟨y, v, hd, htaken, hheap⟩ := hn.decided hfull.type
    have hspare := hr.2.spare hsocks hfull (List.append_ne_nil_of_right_ne_nil _ hne)
    obtain ⟨hverdict, hsocks', hfill⟩ := hfull.decided hq hfits hne hl hspare (hsocks ▸ hd)
    refine ⟨(q.filled (q.part ++ bytes)).1, hq.filled hne hl, hsocks'.symm, ?_, ?_, ?_⟩
    · rw [htaken]
      cases v with
      | none => exact hheap rfl ▸ hfill
      | some v => exact hfill
    · rcases q.bytes_filled (q.part ++ bytes) with hb | hb
      · rw [hb]
        exact List.nil_suffix
      · rw [hb, ← List.append_assoc]
        exact suffix_append hin bytes
    · intro h1 hmem
      obtain ⟨bs, vs, rfl, hrun, hc⟩ := hheard h1 (none_not_mem_append hmem)
      have hopen := hg.close_not_mem h1 hc
      refine ⟨bs ++ bytes, vs ++ v.toList, by simp, ?_, ?_⟩
      · rw [Machine.run_append, hrun, Machine.run_filled (m := ⟨q, vs⟩) hopen hne hl,
          hverdict]
      · rw [hn.calls, List.filter_append]
        refine List.rel_append hc ?_
        cases v with
        | none =>
          rw [List.filter_singleton, htaken]
          exact .nil
        | some v =>
          rw [List.filter_singleton, htaken]
          exact .cons (hn.ran.carried hfull.type hd) .nil

/-- Behind the first byte of a message the version is known. -/
theorem Parser.Good.phase_ne (h : q.Good) (hb : q.bytes ≠ []) : q.phase ≠ .version := by
  intro hp
  obtain ⟨this, phase, fields, part, room⟩ := q
  dsimp only at hp
  subst hp
  obtain ⟨h, -⟩ := h
  cases h
  exact hb rfl

theorem Parser.Good.VN_ne_zero (h : q.Good) (hp : q.phase ≠ .version) : q.socks.VN ≠ 0 := by
  obtain ⟨this, phase, fields, part, room⟩ := q
  dsimp only
  cases phase with
  | version => exact absurd rfl hp
  | header4 => exact h.1 ▸ by decide
  | userid =>
    obtain ⟨⟨header, hh, -⟩, -⟩ := h
    exact hh.VN ▸ by decide
  | host =>
    obtain ⟨⟨header, userid, hh, -⟩, -⟩ := h
    exact hh.VN ▸ by decide
  | nmethods | methods => exact h.1.VN ▸ by decide
  | header5 | ipv4 | length | name | ipv6 | port => exact h.1.VN ▸ by decide

theorem Parser.Good.unset (h : q.Good) : Unset q.socks := by
  by_cases hp : q.phase = .version
  · obtain ⟨this, phase, fields, part, room⟩ := q
    dsimp only at hp
    subst hp
    exact h.2
  · exact fun h0 => absurd h0 (h.VN_ne_zero hp)

/-- A call that the end of reading cuts off. -/
theorem Filling.cut (h : Filling q (some x)) (hq : q.Good) (hpos : 0 < x.pos)
    (hs : c.socks = q.socks) (hx : c.frame = x) :
    Known c ∧ c.frame.contents = q.bytes ∧ c.socks.VN ≠ 0 ∧ c.frame.type ≠ .endOfStream := by
  subst hx
  cases h with
  | frame hh hf =>
    have hb : q.bytes ≠ [] := by
      rw [hh.pos] at hpos
      exact List.length_pos_iff.mp hpos
    exact ⟨.cut hq hf hb hs hh, hh.contents, hs ▸ hq.VN_ne_zero (hq.phase_ne hb), hh.type⟩
  | jammed hp hpart hh hfits =>
    obtain ⟨this, phase, fields, part, room⟩ := q
    dsimp only at hp hpart hh hfits hs
    subst hp hpart
    obtain ⟨⟨header, userid, hh4, -, hu, hfields⟩, -⟩ := hq
    dsimp only at hfields hh4
    subst hfields
    refine ⟨@Known.full _ ⟨this, .userid, [[4], header], userid, userid.length + 1⟩ [0]
      ⟨⟨header, hh4, rfl⟩, hu, rfl⟩ ?_ (by simp) rfl hs hh, ?_, hs ▸ hh4.VN ▸ by decide, hh.type⟩
    on_goal 2 => rw [hh.contents, Parser.bytes, List.append_nil]
    simp only [Parser.Fits, SIZEOF_VEC, List.flatten_cons, List.flatten_nil, List.length_append,
      List.length_cons, List.length_nil] at hfits ⊢
    omega

/-- After the end of reading was marked, nothing is read into the old frame. -/
theorem Sim.forget (h : Sim A g ATYP p ins o) {ins' : List (Option UInt8)} (hp : ins <+: ins')
    (hm : none ∈ ins') : Sim A g ATYP p ins' none where
  ran := h.ran
  seen := h.seen_mono hp
  roomy _ hn := absurd hm hn
  threaded := h.threaded
  once := h.once
  opens _ hx := by cases hx
  tracks hr := by
    obtain ⟨q, hq, hs, -⟩ := h.tracks hr
    exact ⟨.start p.socks, Parser.good_start (hs ▸ hq.unset), rfl, .start rfl, List.nil_suffix,
      fun _ hn => absurd hm hn⟩

theorem Sim.cut (h : Sim A g ATYP w.proto ins (some (w.heap c.id))) (hpos : 0 < (w.heap c.id).pos)
    (hn : Noted A w c w') {ins' : List (Option UInt8)} (hp : ins <+: ins') (hm : none ∈ ins') :
    Sim A g ATYP w'.proto ins' none := by
  have hcut : (∀ a ∈ w.proto.calls, a.Roomy) → Seen ins' c ∧
      c.socks.VN ≠ 0 ∧ c.frame.type ≠ .endOfStream := by
    intro hr
    obtain ⟨q, hq, hs, hf, hin, -⟩ := h.tracks hr
    obtain ⟨hk, hb, hrest⟩ := hf.cut hq hpos (hn.socks.trans hs) hn.frame
    exact ⟨⟨hk, fun hn => absurd hm hn, fun _ => hb ▸ hin.isInfix.trans hp.isInfix⟩, hrest⟩
  refine ⟨?_, ?_, fun _ hn => absurd hm hn, hn.threaded h.threaded, hn.once h.once fun _ => ?_,
    by rintro _ ⟨⟩,
    fun hr => ?_⟩
  · rw [hn.calls, forall_concat]
    exact ⟨h.ran, hn.ran⟩
  · rw [hn.calls]
    exact seen_concat (h.seen_mono hp) fun hr => (hcut hr).1
  · rw [hn.socks, hn.frame]
    exact h.opens _ rfl
  · rw [hn.calls, forall_concat] at hr
    obtain ⟨-, hv, ht⟩ := hcut hr.1
    obtain ⟨y, v, hd, -⟩ := hn.decided ht
    have hVN : w'.proto.socks.VN = c.socks.VN := decision_VN hd hv
    exact ⟨.start w'.proto.socks, Parser.good_start fun h0 => absurd (hVN.symm.trans h0) hv, rfl,
      .start rfl, List.nil_suffix, fun _ hn => absurd hm hn⟩

theorem Sim.ended (h : Sim A g ATYP w.proto ins none) (ht : (w.heap c.id).type = .endOfStream)
    (hn : Noted A w c w') (hm : none ∈ ins) : Sim A g ATYP w'.proto ins none := by
  have ht : c.frame.type = .endOfStream := hn.frame ▸ ht
  refine ⟨?_, ?_, fun _ hn => absurd hm hn, hn.threaded h.threaded,
    hn.once h.once fun hn => absurd ht hn, by rintro _ ⟨⟩, fun hr => ?_⟩
  · rw [hn.calls, forall_concat]
    exact ⟨h.ran, hn.ran⟩
  · rw [hn.calls]
    exact seen_concat h.seen fun _ =>
      ⟨.ended ht, fun hn => absurd hm hn, fun hn => absurd ht hn⟩
  · rw [hn.calls, forall_concat] at hr
    obtain ⟨q, hq, hs, hf, hin, -⟩ := h.tracks hr.1
    exact ⟨q, hq, (hn.ended ht).trans hs, hf, hin, fun _ hn => absurd hm hn⟩

end Closure

section Feeding

variable {env : Env} {connect : Connect} {A : Answers} {g : Bool} {ATYP : UInt8}
  {ins : List (Option UInt8)} {w w' : World Stream Session}

/-- A frame to read into has one vector, for the version. -/
theorem getReadFrame_holds (h : Sizes w) :
    wp (fun _ => True) (getReadFrame env) (fun r w' => Sizes w' ∧ Still False w w' ∧
      ∀ f, r = some f → Holds (.start w.proto.socks) (w'.heap f)) w := by
  unfold getReadFrame
  rw [wp_bind]
  have hborrow := sideSteps_still.poolBorrow env.toContext .rawData "socks.c" 47 w h
  refine wp_mono (wp_and hborrow (poolBorrow_type env.toContext .rawData "socks.c" 47)) ?_
  rintro r w₁ ⟨⟨h₁, k₁⟩, ht⟩
  cases r with
  | none => exact ⟨h₁, k₁, by simp⟩
  | some f =>
    have hfull : Full [] (w₁.heap f).formatEmpty :=
      ⟨rfl, rfl, rfl, h₁ f, by
        change (w₁.heap f).type ≠ _
        rw [ht f rfl]
        decide⟩
    obtain ⟨i, y, ha, hh⟩ := hfull.append w.proto.socks .version Nat.zero_lt_one
      (by simp [Parser.Fits, FRAME_SIZE, SIZEOF_VEC])
    dsimp only
    rw [wp_bind, wp_getFrame, wp_bind, ha, wp_liftM_ok]
    dsimp only
    rw [wp_bind, wp_setFrame]
    have k₂ : Still False w₁ (w₁.setFrame f y) := ⟨⟨rfl, rfl, rfl, id⟩, rfl, False.elim⟩
    refine ⟨h₁.setFrame hh.capacity, trans_of (Still False) k₁ k₂, ?_⟩
    rintro _ ⟨⟩
    have hself : (w₁.setFrame f y).heap f = y := by simp
    exact hself.symm ▸ hh

/-- The delegate keeps what is known. -/
theorem feeder (hA : ∀ t h p n, A t h p (connect t h p n)) :
    Feeder (Going g) (Sim A g ATYP) (delegate env connect) where
  onError := preserves_pure _
  onReturn := rfl
  fetch := by
    refine ⟨getReadFrame env, rfl, fun w h _ hj => ?_⟩
    refine wp_mono (getReadFrame_holds h) ?_
    rintro r w' ⟨h', k, hh⟩
    refine ⟨h', k, ?_⟩
    refine ⟨hj.ran, hj.seen, hj.roomy, hj.threaded, hj.once, ?_, fun hr => ?_⟩
    · rintro x hx _ hlim
      obtain ⟨f, rfl, rfl⟩ := Option.map_eq_some_iff.mp hx
      rw [(hh f rfl).vecLimit] at hlim
      exact absurd hlim (lt_irrefl 1)
    obtain ⟨q, hq, hs, hf, hrest⟩ := hj.tracks hr
    refine ⟨q, hq, hs, ?_, hrest⟩
    obtain ⟨hstart⟩ := hf
    cases r with
    | none => exact .start hstart
    | some f =>
      have hholds : Holds q (w'.heap f) := by
        rw [hstart, ← hs]
        exact hh f rfl
      refine .frame hholds ?_
      rw [hstart]
      simp [Parser.Fits, Parser.start, FRAME_SIZE, SIZEOF_VEC]
  store hg hj hv hb := hj.store hg hv hb
  next _ hj hv _ hn := hj.next hv hn
  read w f h := by
    refine wp_mono (noted_read hA h f) ?_
    rintro taken w' ⟨c, -, -, hn⟩
    refine ⟨hn.sizes, hn.apart, fun hg hr h1 => ?_⟩
    rw [hn.calls]
    rintro ⟨a, ha, hstop⟩
    rcases List.mem_append.mp ha with ha | ha
    · exact hg h1 ⟨a, ha, hstop⟩
    · obtain rfl := List.mem_singleton.mp ha
      exact hn.stops hstop hr
  filled w f h hg hj hv hpos hl _ hi hx := by
    refine wp_mono (noted_read hA h f) ?_
    rintro taken w' ⟨c, rfl, rfl, hn⟩
    rw [hn.apart.inputs, hi]
    exact hj.filled hg hv hpos hl (hn.frame.trans hx) hn
  cut w f h hj hpos := by
    refine wp_mono (noted_read hA h f) ?_
    rintro taken w' ⟨c, rfl, -, hn⟩ ins hp hm
    exact hj.cut hpos hn hp hm
  forget hj _ hp hm := hj.forget hp hm
  ended w f h hj ht hm := by
    refine wp_mono (noted_read hA h f) ?_
    rintro taken w' ⟨c, rfl, -, hn⟩
    rw [hn.apart.inputs]
    exact hj.ended ht hn hm

end Feeding

end Socks

end FrameTransporter
