import FrameTransporter.Proto.Socks.Encoding
import FrameTransporter.Proto.Socks.Gate

/-! # Room for a message in its frame

A call of `read` that wants more bytes leaves every vector in front of the table, as
long as each text of SOCKS4 that goes on has room for one more byte. The delegate
enlarges a text without a look at the size of the frame, so a longer text grows into
the table.
-/

namespace FrameTransporter

open Hoare Intrusive

namespace Socks

open FrameTransporter.Stream ReadEvent

/-- The vectors that the call leaves lie in front of the table, and none of them is smaller than
before: no capacity was cut to 16 bits. -/
structure Call.Bounded (c : Call) : Prop where
  inside : ∀ v ∈ c.vecs, v.offset + v.capacity + SIZEOF_VEC * c.vecs.length ≤ c.frame.capacity
  capacity : ∀ (i : ℕ) (v v' : Vec), c.frame.vecs[i]? = some v → c.vecs[i]? = some v' →
    v.capacity ≤ v'.capacity

/-- A user name of SOCKS4A has ended. -/
def HostBegins (this : Socks) (x : Frame) : Prop :=
  x.vecLimit = 3 ∧ this.Socks4A ∧ ∃ v, vecAt x 2 = .ok v ∧ x.data (v.offset + v.position - 1) = 0

/-- What `read` does to a frame that it wants more bytes in. -/
inductive Widened (this : Socks) (x y : Frame) : Prop
  | appended {n : ℕ} {r : Option ℕ} (pos : 0 < n) (lt : n < 2 ^ 8)
    (four : this.VN = 4 → x.vecLimit = 2 ∨ n = 1 ∧ HostBegins this x)
    (append : x.appendVec n = .ok (r, y))
  | text {i : ℕ} {v : Vec} (four : this.VN = 4) (limit : x.vecLimit = i + 1) (behind : 2 ≤ i)
    (vec : vecAt x i = .ok v) (last : x.data (v.offset + v.position - 1) ≠ 0)
    (eq : y = x.prevVec.modifyVec i (grow 1))
  | name {v : Vec} (auth : Authorized this) (limit : x.vecLimit = 3) (ATYP : this.ATYP = 3)
    (vec : vecAt x 2 = .ok v) (one : v.capacity = 1)
    (eq : y = x.prevVec.modifyVec 2 (grow (x.data (v.offset + v.position - 1)).toNat))

section Widening

variable {this this' : Socks} {x y : Frame} {o : Outcome}

def Widens (this : Socks) (x : Frame) (r : Except Fault (Socks × Frame × Outcome)) : Prop :=
  ∀ this' y, r = .ok (this', y, .more) → Widened this x y

theorem widens_self (ho : o ≠ .more) : Widens this x (.ok (this', x, o)) := by
  rintro _ _ ⟨⟩
  exact absurd rfl ho

theorem widens_append {n : ℕ} (h0 : 0 < n) (hn : n < 2 ^ 8)
    (h4 : this.VN = 4 → x.vecLimit = 2 ∨ n = 1 ∧ HostBegins this x) : Widens this x (do
    let (_, y) ← x.appendVec n
    return (this', y, .more)) := by
  intro this'' y h
  obtain ⟨⟨r, z⟩, hz, h⟩ := bind_ok h
  cases h
  exact .appended h0 hn h4 hz

theorem widens_vecAt {i : ℕ} {k : Vec → Except Fault (Socks × Frame × Outcome)}
    (hk : ∀ v, vecAt x i = .ok v → Widens this x (k v)) : Widens this x (vecAt x i >>= k) := by
  intro this' y h
  obtain ⟨v, hv, h⟩ := bind_ok h
  exact hk v hv this' y h

theorem widens_ite {c : Prop} [Decidable c] {r r' : Except Fault (Socks × Frame × Outcome)}
    (h : c → Widens this x r) (h' : ¬c → Widens this x r') :
    Widens this x (if c then r else r') := by
  split
  · exact h ‹_›
  · exact h' ‹_›

theorem widens_socks4OnRead : Widens this x (socks4OnRead this x) := by
  have htext : ∀ {i : ℕ} {v : Vec}, this.VN = 4 → x.vecLimit = i + 1 → 2 ≤ i →
      vecAt x i = .ok v → ¬x.data (v.offset + v.position - 1) = 0 →
      Widens this x (.ok (this, x.prevVec.modifyVec i (grow 1), .more)) := by
    rintro i v h4 hl hi hv hlast _ _ ⟨⟩
    exact .text h4 hl hi hv hlast rfl
  unfold socks4OnRead
  split
  · next hl =>
    exact widens_ite (fun _ => widens_vecAt fun _ _ => widens_append (by decide) (by decide)
      fun _ => .inl hl) fun _ => widens_self (by decide)
  · next hl =>
    refine widens_ite (fun h4 => widens_vecAt fun v hv => widens_ite (fun h0 => ?_)
      fun h0 => htext h4 hl le_rfl hv h0) fun _ => widens_self (by decide)
    exact widens_ite (fun ha => widens_append (by decide) (by decide)
      fun _ => .inr ⟨rfl, hl, ha, v, hv, h0⟩) fun _ => widens_self (by decide)
  · next hl =>
    exact widens_ite (fun h4 => widens_vecAt fun v hv => widens_ite
      (fun _ => widens_self (by decide)) fun h0 => htext h4.1 hl (by decide) hv h0)
      fun _ => widens_self (by decide)
  · exact widens_self (by decide)

theorem widens_socks5OnRead (h5 : this.VN = 5) : Widens this x (socks5OnRead this x) := by
  have happend : ∀ {this' : Socks} {n : ℕ}, 0 < n → n < 2 ^ 8 → Widens this x (do
      let (_, y) ← x.appendVec n
      return (this', y, .more)) := fun h0 hn =>
    widens_append h0 hn fun h4 => absurd (h4.symm.trans h5) (by decide)
  unfold socks5OnRead
  refine widens_ite (fun _ => widens_ite (fun _ => ?_) fun _ => widens_self (by decide))
    fun ha => ?_
  · split
    · refine widens_vecAt fun v _ => widens_ite (fun _ => widens_self (by decide)) fun h0 => ?_
      exact happend (Nat.pos_of_ne_zero fun hz => h0 (UInt8.toNat_inj.mp hz)) (UInt8.toNat_lt _)
    · exact widens_self (by decide)
    · exact widens_self (by decide)
  · split
    · exact happend (by decide) (by decide)
    · exact widens_vecAt fun _ _ => widens_ite (fun _ => happend (by decide) (by decide)) fun _ =>
        widens_ite (fun _ => happend (by decide) (by decide)) fun _ =>
        widens_ite (fun _ => happend (by decide) (by decide)) fun _ => widens_self (by decide)
    · next hl =>
      refine widens_vecAt fun v hv =>
        widens_ite (fun hc => ?_) fun _ => happend (by decide) (by decide)
      rintro _ _ ⟨⟩
      exact .name ⟨h5, Bool.eq_true_of_not_eq_false ha⟩ hl hc.1 hv hc.2 rfl
    · exact widens_vecAt fun _ _ => widens_self (by decide)
    · exact widens_self (by decide)

theorem widens_onRead : Widens this x (onRead this x) := by
  unfold onRead
  refine widens_ite (fun h0 => widens_vecAt fun _ _ => ?_) fun _ => widens_ite
    (fun _ => widens_socks4OnRead) fun _ => widens_ite (fun h5 => widens_socks5OnRead h5)
    fun _ => widens_self (by decide)
  have hfour : ∀ n, this.VN = 4 → x.vecLimit = 2 ∨ n = 1 ∧ HostBegins this x := fun _ h4 =>
    absurd (h4.symm.trans h0.1) (by decide)
  exact widens_ite (fun _ => widens_append (by decide) (by decide) (hfour _)) fun _ =>
    widens_ite (fun _ => widens_append (by decide) (by decide) (hfour _)) fun _ =>
    widens_self (by decide)

/-- No verdict means that more bytes are wanted. -/
theorem onRead_more (h : decision this x = .ok (this', y, none)) :
    onRead this x = .ok (this', y, .more) := by
  unfold decision at h
  obtain ⟨⟨this₁, x₁, o⟩, hread, hd⟩ := bind_ok h
  cases o with
  | more =>
    cases hd
    exact hread
  | request =>
    dsimp only at hd
    split_ifs at hd
    · cases hd
    · obtain ⟨r, -, hd⟩ := bind_ok hd
      cases hd
  | select =>
    obtain ⟨v, -, hd⟩ := bind_ok hd
    split_ifs at hd <;> cases hd
  | fail => cases hd

end Widening

/-- The frame of a call: full fields of the parser, and the vector of the field that is read. -/
structure Call.Stacked (c : Call) (p : Parser) (position : ℕ) : Prop where
  good : p.Good
  fits : p.Fits
  socks : c.socks = p.socks
  vecs : c.frame.vecs = layout 0 p.fields ++ [⟨p.fields.flatten.length, position, p.room, p.room⟩]
  capacity : c.frame.capacity = FRAME_SIZE
  cursor : c.frame.vecPosition = p.fields.length + 1 ∧ position = p.room ∨
    c.frame.vecPosition = p.fields.length ∧ position = p.part.length
  last : c.frame.contents.getLast? =
    some (c.frame.data (p.fields.flatten.length + position - 1))

section Frames

variable {c : Call} {p : Parser} {v : Vec} {x y : Frame} {position : ℕ}

theorem getLast?_of_slice {mem : ℕ → UInt8} {bytes : List UInt8} (hne : bytes ≠ [])
    (h : slice mem 0 bytes.length = bytes) : bytes.getLast? = some (mem (bytes.length - 1)) := by
  have hpos := List.length_pos_iff.mpr hne
  have hlt : bytes.length - 1 < bytes.length := Nat.sub_lt hpos Nat.one_pos
  rw [List.getLast?_eq_getElem?, data_of_slice h hlt, memory, List.getD_eq_getElem _ _ hlt,
    List.getElem?_eq_getElem hlt]

/-- The frame of a call lies as the parser knows it. -/
theorem Known.stacked (h : Known c) (ht : c.frame.type ≠ .endOfStream) :
    ∃ p position, c.Stacked p position := by
  cases h with
  | ended type => exact absurd type ht
  | @full p bs good fits ne room socks frame =>
    have hlen : (p.part ++ bs).length = p.room := (List.length_append ..).trans room
    have hflat : (p.fields ++ [p.part ++ bs]).flatten.length =
        p.fields.flatten.length + p.room := by
      rw [List.flatten_concat, List.length_append, hlen]
    have hne : (p.fields ++ [p.part ++ bs]).flatten ≠ [] := by simp [ne]
    refine ⟨p, p.room, good, fits, socks, ?_, frame.capacity, .inl ⟨?_, rfl⟩, ?_⟩
    · rw [frame.vecs, layout_append, layout, layout, hlen, Nat.zero_add]
    · rw [frame.cursor, List.length_append]
      rfl
    · rw [frame.contents, getLast?_of_slice hne frame.data, hflat]
  | @cut p good fits ne socks frame =>
    refine ⟨p, p.part.length, good, fits, socks, frame.vecs, frame.capacity,
      .inr ⟨frame.cursor, rfl⟩, ?_⟩
    rw [frame.contents, getLast?_of_slice ne frame.data, length_bytes]

/-- A vector of full fields ends before the field behind them. -/
theorem end_le_of_mem_layout {off : ℕ} {fields : List (List UInt8)} (h : v ∈ layout off fields) :
    v.offset + v.capacity ≤ off + fields.flatten.length := by
  induction fields generalizing off with
  | nil => cases h
  | cons field fields ih =>
    rw [List.flatten_cons, List.length_append]
    rcases List.mem_cons.mp h with rfl | h
    · dsimp only
      omega
    · have hle := ih h
      omega

namespace Call.Stacked

theorem vecLimit (h : c.Stacked p position) : c.frame.vecLimit = p.fields.length + 1 := by
  rw [Frame.vecLimit, h.vecs, List.length_append, length_layout]
  rfl

theorem vecAt (h : c.Stacked p position) : Socks.vecAt c.frame p.fields.length =
    .ok ⟨p.fields.flatten.length, position, p.room, p.room⟩ := by
  rw [Socks.vecAt, h.vecs, List.getElem?_append_right (length_layout _ _).le, length_layout,
    Nat.sub_self]
  rfl

theorem sum_capacity (h : c.Stacked p position) :
    (c.frame.vecs.map Vec.capacity).sum = p.fields.flatten.length + p.room := by
  rw [h.vecs, List.map_append, List.sum_append, sum_capacity_layout]
  rfl

theorem end_le (h : c.Stacked p position) (hv : v ∈ c.frame.vecs) :
    v.offset + v.capacity ≤ p.fields.flatten.length + p.room := by
  rw [h.vecs] at hv
  rcases List.mem_append.mp hv with hv | hv
  · have hle := end_le_of_mem_layout hv
    omega
  · obtain rfl := List.mem_singleton.mp hv
    exact le_rfl

/-- The room of the last vector is an `int` of 16 bits. -/
theorem fits_frame (h : c.Stacked p position) :
    p.fields.flatten.length + p.room + SIZEOF_VEC * (p.fields.length + 1) ≤ FRAME_SIZE := h.fits

theorem appendOffset (h : c.Stacked p position) :
    c.frame.appendOffset = p.fields.flatten.length + p.room := by
  rw [Frame.appendOffset, h.vecs, List.getLast?_concat]

/-- The room for one more vector. -/
theorem room (h : c.Stacked p position) :
    c.frame.room = FRAME_SIZE - SIZEOF_VEC * (p.fields.length + 2) := by
  rw [Frame.room, h.vecLimit, h.capacity]
  push_cast
  ring

theorem vecs_grown (h : c.Stacked p position) (n : ℕ) :
    (c.frame.prevVec.modifyVec p.fields.length (grow n)).vecs =
      layout 0 p.fields ++ [grow n ⟨p.fields.flatten.length, position, p.room, p.room⟩] := by
  have hprev : c.frame.prevVec.vecs = c.frame.vecs := by
    unfold Frame.prevVec
    split <;> rfl
  change (c.frame.prevVec.vecs.modify _ _) = _
  rw [hprev, h.vecs, ← length_layout 0 p.fields, modify_concat]

end Call.Stacked

/-- A vector was appended, or there was no room for it. -/
theorem Call.Stacked.appended (h : c.Stacked p position) {n : ℕ} {r : Option ℕ} (hn : n < 2 ^ 8)
    (ha : c.frame.appendVec n = .ok (r, y)) (hv : c.vecs = y.vecs) : c.Bounded := by
  have hfits := h.fits_frame
  have hlim := h.vecLimit
  have hcap := h.capacity
  rcases Frame.createVec_ok ha with ⟨-, rfl, -⟩ | ⟨-, rfl, hroom, -⟩
  · refine ⟨fun v hmem => ?_, fun i v v' hi hi' => ?_⟩
    · rw [hv] at hmem ⊢
      have hend := h.end_le hmem
      rw [Frame.vecLimit] at hlim
      rw [hcap, hlim]
      omega
    · rw [hv, hi] at hi'
      cases hi'
      exact le_rfl
  · have hoff := h.appendOffset
    have hlen : c.vecs.length = p.fields.length + 2 := by
      rw [hv, Frame.push, List.length_append, ← Frame.vecLimit, hlim]
      rfl
    rw [hoff, h.room] at hroom
    simp only [FRAME_SIZE, SIZEOF_VEC] at hfits hroom
    rw [u64, Nat.mod_eq_of_lt (by omega)] at hroom
    refine ⟨fun v hmem => ?_, fun i v v' hi hi' => ?_⟩
    · rw [hlen, hcap, SIZEOF_VEC, FRAME_SIZE]
      rw [hv, Frame.push] at hmem
      rcases List.mem_append.mp hmem with hmem | hmem
      · have hend := h.end_le hmem
        push_cast at hroom
        omega
      · obtain rfl := List.mem_singleton.mp hmem
        dsimp only
        rw [hoff, u16, u16, Nat.mod_eq_of_lt (by omega), Nat.mod_eq_of_lt (by omega)]
        push_cast at hroom
        omega
    · obtain ⟨hlt, -⟩ := List.getElem?_eq_some_iff.mp hi
      rw [hv, Frame.push, List.getElem?_append_left hlt, hi] at hi'
      cases hi'
      exact le_rfl

/-- The last vector was enlarged, and there was room for that. -/
theorem Call.Stacked.grown (h : c.Stacked p position) {n : ℕ}
    (hn : p.fields.flatten.length + p.room + n + SIZEOF_VEC * (p.fields.length + 1) ≤ FRAME_SIZE)
    (hv : c.vecs = (c.frame.prevVec.modifyVec p.fields.length (grow n)).vecs) : c.Bounded := by
  rw [h.vecs_grown] at hv
  have hlen : c.vecs.length = p.fields.length + 1 := by
    rw [hv, List.length_append, length_layout]
    rfl
  have hlt : p.room + n < 2 ^ 16 := by
    simp only [FRAME_SIZE, SIZEOF_VEC] at hn
    omega
  refine ⟨fun v hmem => ?_, fun i v v' hi hi' => ?_⟩
  · rw [hlen, h.capacity]
    rw [hv] at hmem
    rcases List.mem_append.mp hmem with hmem | hmem
    · have hend := end_le_of_mem_layout hmem
      omega
    · obtain rfl := List.mem_singleton.mp hmem
      dsimp only [grow]
      rw [u16, Nat.mod_eq_of_lt hlt]
      omega
  · rw [h.vecs] at hi
    rw [hv] at hi'
    rcases Nat.lt_or_ge i (layout 0 p.fields).length with hlt' | hge
    · rw [List.getElem?_append_left hlt'] at hi hi'
      rw [hi] at hi'
      cases hi'
      exact le_rfl
    · rw [List.getElem?_append_right hge] at hi hi'
      obtain ⟨hlast, hi⟩ := List.getElem?_eq_some_iff.mp hi
      obtain ⟨hlast', hi'⟩ := List.getElem?_eq_some_iff.mp hi'
      rw [List.getElem_singleton] at hi hi'
      subst hi hi'
      dsimp only [grow]
      rw [u16, Nat.mod_eq_of_lt hlt]
      exact Nat.le_add_right _ _

/-- The address of SOCKS5 lies behind four bytes. -/
theorem Parser.Good.address (h : p.Good) (ha : Authorized p.socks) (hl : p.fields.length = 2) :
    p.fields.flatten.length = 4 := by
  obtain ⟨this, phase, fields, part, room⟩ := p
  dsimp only at ha hl ⊢
  cases phase with
  | version =>
    obtain ⟨h, -⟩ := h
    cases h
    cases hl
  | header4 =>
    have h4 : this.VN = 4 := h.1
    exact absurd (h4.symm.trans ha.VN) (by decide)
  | userid =>
    obtain ⟨⟨header, hh, -⟩, -⟩ := h
    exact absurd (hh.VN.symm.trans ha.VN) (by decide)
  | host =>
    obtain ⟨⟨header, userid, hh, -⟩, -⟩ := h
    exact absurd (hh.VN.symm.trans ha.VN) (by decide)
  | nmethods | methods => exact absurd (h.1.authorized.symm.trans ha.authorized) (by decide)
  | header5 =>
    obtain ⟨-, ⟨v, hf⟩, -⟩ := h
    have hf : fields = [[v]] := hf
    rw [hf] at hl
    cases hl
  | ipv4 | length | name | ipv6 =>
    obtain ⟨-, ⟨v, r, hf⟩, -⟩ := h
    have hf : fields = _ := hf
    rw [hf]
    rfl
  | port =>
    obtain ⟨-, ⟨v, r, a, hf, -⟩, -⟩ := h
    have hf : fields = _ := hf
    rw [hf] at hl
    cases hl

/-- With room for one more byte of a text the vectors stay in front of the table. -/
theorem Call.Stacked.bounded (h : c.Stacked p position) (hr : c.Roomy)
    (hw : Widened c.socks c.frame y) (hv : c.vecs = y.vecs) : c.Bounded := by
  cases hw with
  | appended _ hlt _ append => exact h.appended hlt append hv
  | @text i v four limit behind vec last eq =>
    obtain rfl : p.fields.length = i := Nat.succ_injective (h.vecLimit.symm.trans limit)
    rw [h.vecAt] at vec
    cases vec
    have hroom := hr four (limit ▸ Nat.succ_le_succ behind) fun hlast => by
      rw [h.last] at hlast
      exact last (Option.some.inj hlast)
    rw [h.sum_capacity, h.vecLimit, h.capacity] at hroom
    exact h.grown hroom (eq ▸ hv)
  | @name v auth limit _ vec one eq =>
    have htwo : p.fields.length = 2 := Nat.succ_injective (h.vecLimit.symm.trans limit)
    rw [← htwo, h.vecAt] at vec
    cases vec
    have hroom : p.room = 1 := one
    rw [← htwo] at eq
    generalize c.frame.data _ = b at eq
    have hlt := b.toNat_lt
    refine h.grown ?_ (eq ▸ hv)
    rw [h.good.address (h.socks ▸ auth) htwo, htwo, hroom, SIZEOF_VEC, FRAME_SIZE]
    omega

/-- A text that goes on is enlarged. -/
theorem Call.Stacked.text_grows (h : c.Stacked p position) (h4 : c.socks.VN = 4)
    (hl : 3 ≤ c.frame.vecLimit) (hlast : c.frame.contents.getLast? ≠ some 0) :
    decision c.socks c.frame =
      .ok (c.socks, c.frame.prevVec.modifyVec p.fields.length (grow 1), none) := by
  have hbyte : c.frame.data (p.fields.flatten.length + position - 1) ≠ 0 := fun h0 => by
    rw [h.last, h0] at hlast
    exact hlast rfl
  have hlim := h.vecLimit
  have hvec := h.vecAt
  have hgood := h.good
  have hsocks := h.socks
  obtain ⟨this, phase, fields, part, room⟩ := p
  dsimp only at hlim hvec hsocks hbyte ⊢
  rw [hsocks] at h4 ⊢
  cases phase with
  | version =>
    obtain ⟨hgood, -⟩ := hgood
    cases hgood
    rw [hlim] at hl
    exact absurd hl (by decide)
  | header4 =>
    have hf : fields = [[4]] := hgood.2.1
    rw [hlim, hf] at hl
    exact absurd hl (by decide)
  | userid =>
    obtain ⟨⟨header, -, hf⟩, -⟩ := hgood
    have hf : fields = [[4], header] := hf
    subst hf
    exact decision_grow ((onRead_userid h4 hlim hvec).trans (if_neg hbyte))
  | host =>
    obtain ⟨⟨header, userid, -, ha, -, hf⟩, -⟩ := hgood
    have hf : fields = [[4], header, userid ++ [0]] := hf
    subst hf
    exact decision_grow ((onRead_host h4 ha hlim hvec).trans (if_neg hbyte))
  | nmethods | methods =>
    have h5 : this.VN = 5 := hgood.1.VN
    exact absurd (h4.symm.trans h5) (by decide)
  | header5 | ipv4 | length | name | ipv6 | port =>
    have h5 : this.VN = 5 := hgood.1.VN
    exact absurd (h4.symm.trans h5) (by decide)

/-- Without room for one more byte the last vector reaches the table. -/
theorem Call.Stacked.not_bounded {A : Answers} (h : c.Stacked p position) (hran : Ran A c)
    (ht : c.frame.type ≠ .endOfStream) (hr : ¬c.Roomy) : c.taken = false ∧ ¬c.Bounded := by
  simp only [Call.Roomy, Classical.not_imp, not_le] at hr
  obtain ⟨h4, hl, hlast, hroom⟩ := hr
  rw [h.sum_capacity, h.vecLimit, h.capacity] at hroom
  have hd := h.text_grows h4 hl hlast
  cases hran with
  | ended type => exact absurd type ht
  | done _ decision =>
    rw [hd] at decision
    cases decision
  | more _ decision taken _ vecs =>
    rw [hd] at decision
    cases decision
    refine ⟨taken, fun hb => ?_⟩
    rw [h.vecs_grown] at vecs
    have hinside := hb.inside (grow 1 ⟨p.fields.flatten.length, position, p.room, p.room⟩) (by
      rw [vecs]
      simp)
    have hfits := h.fits_frame
    rw [vecs, h.capacity, List.length_append, length_layout, List.length_singleton] at hinside
    simp only [grow, u16, FRAME_SIZE, SIZEOF_VEC] at hinside hroom hfits
    omega

end Frames

section Runs

variable {A : Answers} {g : Bool} {ATYP : UInt8} {w : World Stream Session}

/-- What each element takes over from the elements before it holds for all of them. -/
theorem forall_of_before {α : Type} {P : α → Prop} {l : List α}
    (h : ∀ pre a post, l = pre ++ a :: post → (∀ b ∈ pre, P b) → P a) : ∀ a ∈ l, P a := by
  induction l using List.reverseRecOn with
  | nil => exact fun a ha => absurd ha List.not_mem_nil
  | append_singleton l a ih =>
    have hold : ∀ b ∈ l, P b := ih fun pre b post hs => h pre b (post ++ [a]) (by simp [hs])
    exact forall_concat.mpr ⟨hold, h l a [] rfl hold⟩

theorem Ran.type_of_more {c : Call} (h : Ran A c) (ht : c.taken = false) :
    c.frame.type ≠ .endOfStream := by
  cases h with
  | ended _ taken => exact absurd (ht.symm.trans taken) (by decide)
  | more type => exact type
  | done type => exact type

/-- Before the end of reading vectors that lie in front of the table had room. -/
theorem Reaches.roomy (h : Reaches A g ATYP w) (hn : none ∉ inputs w.trace)
    (hb : ∀ c ∈ w.proto.calls, c.taken = false → c.Bounded) : ∀ c ∈ w.proto.calls, c.Roomy := by
  refine forall_of_before fun pre c post hs hpre => ?_
  have hmem : c ∈ w.proto.calls := hs ▸ by simp
  have hseen := h.seen hs hpre
  have ht := (hseen.whole hn).type
  by_contra hr
  obtain ⟨p, position, hstacked⟩ := hseen.known.stacked ht
  obtain ⟨htaken, hnot⟩ := hstacked.not_bounded (h.ran hmem) ht hr
  exact hnot (hb c hmem htaken)

/-- As long as each text of SOCKS4 that goes on has room for one more byte, every vector of a frame
that is being filled stays in front of the table, and no capacity is cut. Before the end of reading
nothing less is enough. -/
theorem vecs_bounded (h : Reaches A g ATYP w) :
    ((∀ c ∈ w.proto.calls, c.Roomy) → ∀ c ∈ w.proto.calls, c.taken = false → c.Bounded) ∧
      (none ∉ inputs w.trace → (∀ c ∈ w.proto.calls, c.taken = false → c.Bounded) →
        ∀ c ∈ w.proto.calls, c.Roomy) := by
  refine ⟨fun hroomy c hmem htaken => ?_, h.roomy⟩
  obtain ⟨pre, post, hs⟩ := List.append_of_mem hmem
  have hran := h.ran hmem
  have ht := hran.type_of_more htaken
  have hpre : ∀ a ∈ pre, a.Roomy := fun a ha => hroomy a (hs ▸ List.mem_append_left _ ha)
  obtain ⟨p, position, hstacked⟩ := (h.seen hs hpre).known.stacked ht
  cases hran with
  | ended type => exact absurd type ht
  | done _ _ taken => exact absurd (htaken.symm.trans taken) (by decide)
  | more _ decision _ _ vecs =>
    exact hstacked.bounded (hroomy c hmem) (widens_onRead _ _ (onRead_more decision)) vecs

/-- A greeting is being read. -/
theorem vecs_bounded_five : ∃ w, Reaches anyAnswer true 0 w ∧
    ∃ c ∈ w.proto.calls, c.taken = false ∧ c.Bounded := by
  obtain ⟨w, hw, ho⟩ := sends_observe anyAnswer (fun _ _ _ _ => true) (fun _ _ _ _ => trivial)
    [[5], [1]] (fun _ _ => 0)
    (fun w => (w.proto.socks.VN, w.proto.calls.any fun c => c.taken = false)) (5, true)
    (by decide +kernel)
  obtain ⟨h5, hany⟩ := Prod.mk.inj ho
  obtain ⟨c, hmem, htaken⟩ := List.any_eq_true.mp hany
  have htaken := of_decide_eq_true htaken
  exact ⟨w, hw, c, hmem, htaken, (vecs_bounded hw).1 (hw.threaded.roomy h5) c hmem htaken⟩

end Runs

/-- A stream without TLS that waits for the bytes of a message. -/
structure Reading (f : FrameId) (w : World Stream Session) : Prop where
  established : w.socket.Established
  ssl : w.socket.ssl = false
  readPartial : w.socket.readPartial = false
  readFrame : w.socket.readFrame = some f
  wantRead : READ_WANT_READ ∈ w.socket.readEvents

section Growth

variable {A : Answers} {w : World Stream Session} {f : FrameId} {connect : Connect} {q : Parser}
  {b : UInt8}
  {this : Socks} {y : Frame}

theorem Reading.readSetEvent {e : Finset ReadEvent} (h : Reading f w) :
    Reading f (w.setSocket (readSetEvent e w.socket)) := by
  rw [readSetEvent_eq]
  exact ⟨h.established, h.ssl, h.readPartial, h.readFrame, Finset.mem_union_left _ h.wantRead⟩

/-- The delegate wants more bytes. -/
theorem read_more (env : Env) (h : (w.heap f).type ≠ .endOfStream)
    (hd : Socks.onRead w.proto.socks (w.heap f) = .ok (this, y, .more)) :
    wp (fun _ => False) ((delegate env connect).read f) (fun taken w' => taken = false ∧
      w'.socket = w.socket ∧ w'.trace = w.trace) w := by
  change wp (fun _ => False) (noted (read env connect) f) _ w
  unfold noted read
  rw [wp_bind, wp_get, wp_bind, wp_setSession, wp_bind, wp_bind, wp_getFrame, wp_ite]
  refine ⟨fun ht => absurd ht h, fun _ => ?_⟩
  have hd : Socks.onRead (withProto w { w.proto with acts := [] }).proto.socks
      ((withProto w { w.proto with acts := [] }).heap f) = .ok (this, y, .more) := hd
  rw [wp_bind, wp_getSocks, wp_bind, hd, wp_liftM_ok]
  exact ⟨rfl, rfl, rfl⟩

/-- The frame is attached again. -/
theorem uplink_more (env : Env) (h : (w.heap f).type ≠ .endOfStream)
    (hd : Socks.onRead w.proto.socks (w.heap f) = .ok (this, y, .more)) :
    wp (fun _ => False) (uplink (delegate env connect) f) (fun _ w' =>
      w'.socket = { w.socket with readFrame := some f } ∧ inputs w'.trace = inputs w.trace) w := by
  unfold uplink deliver
  rw [wp_bind, wp_modifySocket, wp_bind, wp_bind, wp_getFrame, wp_bind, wp_setOwner, wp_bind,
    wp_record, wp_bind]
  refine wp_mono (read_more env h hd) ?_
  rintro _ w₁ ⟨rfl, hs, ht⟩
  rw [wp_bind, wp_record, wp_pure]
  refine ⟨?_, ?_⟩
  · change { w₁.socket with readFrame := some f } = _
    rw [hs]
    rfl
  · change inputs (w₁.trace ++ [_]) = _
    rw [ht, World.record_trace, inputs_append, inputs_append]
    simp [inputs]

/-- A byte fills the last vector, and the delegate wants more. -/
theorem reading_more (h : Reading f w) (hh : Holds q (w.heap f))
    (hroom : q.part.length + 1 = q.room) (connect : Connect)
    (hd : Socks.onRead w.proto.socks ((w.heap f).filledUp q.vec [b]) = .ok (this, y, .more)) :
    ∃ w', onReadEvent (clientEnv [b]) (delegate (clientEnv [b]) connect) w = .ok ((), w') ∧
      Reading f w' ∧ inputs w'.trace = inputs w.trace ++ [some b] := by
  suffices hwp :
      wp (fun _ => False) (onReadEvent (clientEnv [b]) (delegate (clientEnv [b]) connect))
        (fun _ w' => Reading f w' ∧ inputs w'.trace = inputs w.trace ++ [some b]) w by
    obtain ⟨_, w', hrun, hpost⟩ := wp_returns hwp
    exact ⟨w', hrun, hpost⟩
  have hlim : q.vec.position + 1 = q.vec.limit := hroom
  have hsize : toSize (q.vec.limit - q.vec.position) = 1 := by
    rw [← hlim, Nat.cast_add, add_sub_cancel_left]
    rfl
  have hrecv : (clientEnv [b]).recv w.socket w.clock = .data [b] := rfl
  have hstored : ((w.heap f).write (q.vec.offset + q.vec.position) ([b].take 1)).advanceVec q.vec
      ([b].take 1).length = .ok ((w.heap f).stored q.vec [b]) :=
    Frame.advanceVec_eq hlim.le hlim.le
  have hfull : decide (q.vec.limit ≤ q.vec.position + ([b].take 1).length) = true :=
    decide_eq_true hlim.ge
  have hlast : (w.heap f).vecPosition + 1 = (w.heap f).vecLimit := by rw [hh.vecLimit, hh.cursor]
  unfold onReadEvent
  rw [wp_bind, wp_getSocket, wp_ite]
  refine ⟨fun hn => absurd h.established hn, fun _ => ?_⟩
  change wp (fun _ => False) (readLoop _ _ 1) _ w
  rw [readLoop, wp_bind]
  unfold takeReadFrame
  rw [wp_bind, wp_getSocket, if_pos (by simp [h.readFrame]), wp_pure, h.readFrame]
  dsimp only
  unfold readVec
  rw [wp_bind, wp_bind, wp_getFrame, wp_bind, hh.getVec, wp_liftM_ok]
  dsimp only
  rw [hsize, if_neg (by decide), wp_bind]
  unfold receive
  rw [wp_bind, wp_getSocket, if_pos h.ssl]
  unfold recvPlain
  rw [wp_bind, wp_getSocket, wp_bind, wp_ask, hrecv]
  dsimp only
  rw [wp_bind, wp_record, if_neg (by simp), wp_pure]
  dsimp only
  rw [wp_bind, hstored, wp_liftM_ok, wp_bind, wp_setFrame]
  unfold vecAdvanced
  rw [hfull, wp_bind, wp_getSocket, if_neg (by decide), wp_bind, wp_getFrame, wp_bind]
  rw [World.setFrame_heap, Function.update_self, nextVec_stored hh.getVec, wp_liftM_ok, wp_bind,
    wp_setFrame, if_pos (by simpa using hlast), wp_bind, World.setFrame_setFrame]
  have hself : ((w.tick.record (.recv q.vec 1 ([b].take 1))).setFrame f
      ((w.heap f).filledUp q.vec [b])).heap f = (w.heap f).filledUp q.vec [b] := by simp
  refine wp_mono (uplink_more _ (by rw [hself]; exact hh.type) (by rw [hself]; exact hd)) ?_
  rintro _ w₁ ⟨hs, hi⟩
  have hreading : Reading f w₁ := by
    constructor <;> rw [hs]
    exacts [h.established, h.ssl, h.readPartial, h.wantRead]
  have hinputs : inputs w₁.trace = inputs w.trace ++ [some b] := by
    rw [hi, World.setFrame_trace, World.record_trace, inputs_append]
    rfl
  rw [wp_bind, wp_getSocket, wp_pure, if_pos (decide_eq_true hreading.wantRead)]
  exact ⟨hreading.readSetEvent, hinputs⟩

/-- A request of SOCKS4 whose user name goes on. -/
def flood (n : ℕ) : List UInt8 := 4 :: header4 ⟨10, 0, 0, 1⟩ 80 ++ List.replicate n 65

/-- The parser behind these bytes. -/
def flooded (n : ℕ) : Parser :=
  ⟨asked4 0 ⟨10, 0, 0, 1⟩ 80, .userid, [[4], header4 ⟨10, 0, 0, 1⟩ 80], List.replicate n 65, n + 1⟩

theorem flood_succ (n : ℕ) : flood (n + 1) = flood n ++ [65] := by
  rw [flood, flood, List.replicate_succ', List.append_assoc]

theorem run_flood (n : ℕ) : (Machine.init 0).run (flood n) = ⟨flooded n, []⟩ := by
  have h65 : 0 ∉ List.replicate n (65 : UInt8) := fun h =>
    absurd (List.eq_of_mem_replicate h) (by decide)
  have htext : Machine.run
      ⟨⟨asked4 0 ⟨10, 0, 0, 1⟩ 80, .userid, [[4], header4 ⟨10, 0, 0, 1⟩ 80], [], 1⟩, []⟩
      (List.replicate n 65) = _ := run_text [] List.not_mem_nil h65 fun _ => grow_userid
  rw [flood, Machine.run_append, run_header4, htext]
  simp [flooded]

theorem fits_flooded {n : ℕ} : (flooded n).Fits ↔ n + 57 ≤ FRAME_SIZE := by
  have hlen : (flooded n).fields.flatten.length = 8 := rfl
  have hfields : (flooded n).fields.length = 2 := rfl
  have hroom : (flooded n).room = n + 1 := rfl
  rw [Parser.Fits, hlen, hfields, hroom, SIZEOF_VEC]
  omega

/-- As long as the user name fits, all that came in does. -/
theorem snug_flood {n : ℕ} (hn : n + 57 ≤ FRAME_SIZE) : Snug 0 ((flood n).map some) := by
  induction n with
  | zero => exact snug_iff.mpr (by decide)
  | succ n ih =>
    rw [snug_iff] at ih ⊢
    intro bs hbs
    rw [flood_succ, List.mem_inits, List.prefix_concat_iff] at hbs
    rcases hbs with rfl | hbs
    · rw [← flood_succ, run_flood]
      exact fits_flooded.mpr hn
    · exact ih (by omega) bs ((List.mem_inits _ _).mpr hbs)

/-- A client of SOCKS4 before its user name. -/
theorem reaches_flood_zero : ∃ w f, Reaches anyAnswer true 0 w ∧ Reading f w ∧
    inputs w.trace = (flood 0).map some := by
  obtain ⟨w, hw, ho⟩ := sends_observe anyAnswer (fun _ _ _ _ => true) (fun _ _ _ _ => trivial)
    [[4], [1, 0, 80, 10, 0, 0, 1]] (fun _ _ => 0) (fun w => (inputs w.trace, w.socket.readFrame,
      decide (w.socket.Established ∧ w.socket.ssl = false ∧ w.socket.readPartial = false ∧
        READ_WANT_READ ∈ w.socket.readEvents)))
    ((flood 0).map some, some ⟨0, 0⟩, true) (by decide +kernel)
  obtain ⟨hin, ho⟩ := Prod.mk.inj ho
  obtain ⟨hf, ho⟩ := Prod.mk.inj ho
  obtain ⟨he, hs, hp, hr⟩ := of_decide_eq_true ho
  exact ⟨w, _, hw, ⟨he, hs, hp, hf, hr⟩, hin⟩

theorem none_not_mem_flood (n : ℕ) : none ∉ (flood n).map some := by simp

/-- The read frame holds what the parser knows of the user name. -/
theorem tracks_flood {n : ℕ} (h : Reaches A true 0 w) (hin : inputs w.trace = (flood n).map some)
    (hroomy : ∀ c ∈ w.proto.calls, c.Roomy) : w.proto.socks = (flooded n).socks ∧
      Filling (flooded n) (w.socket.readFrame.map w.heap) := by
  obtain ⟨q, -, hsocks, hfill, -, hheard⟩ := h.feeds.known.tracks hroomy
  obtain ⟨bs, vs, hbs, hrun, -⟩ := hheard rfl (hin ▸ none_not_mem_flood n)
  rw [hin] at hbs
  obtain rfl := List.map_injective_iff.mpr (Option.some_injective _) hbs
  rw [run_flood] at hrun
  cases hrun
  exact ⟨hsocks, hfill⟩

/-- As long as the user name fits, it goes on. -/
theorem reaches_flood {n : ℕ} (hn : n + 56 ≤ FRAME_SIZE) : ∃ w f, Reaches anyAnswer true 0 w ∧
    Reading f w ∧ inputs w.trace = (flood n).map some := by
  induction n with
  | zero => exact reaches_flood_zero
  | succ n ih =>
    obtain ⟨w, f, hw, hr, hin⟩ := ih (by omega)
    have hsnug : Snug 0 ((flood n).map some) := snug_flood (by omega)
    have hroomy := hw.feeds.known.roomy rfl (hin ▸ none_not_mem_flood n) (hin ▸ hsnug)
    obtain ⟨hsocks, hfill⟩ := tracks_flood hw hin hroomy
    rw [hr.readFrame, Option.map_some] at hfill
    cases hfill with
    | jammed phase => cases phase
    | frame hh =>
      have hroom : (flooded n).part.length + 1 = (flooded n).room :=
        congrArg (· + 1) List.length_replicate
      have hfull : Full [[4], header4 ⟨10, 0, 0, 1⟩ 80, List.replicate n 65 ++ [65]]
        ((w.heap f).filledUp (flooded n).vec [65]) := hh.filled hroom
      have h4 : (flooded n).socks.VN = 4 := rfl
      have hd := follows_userid h4 (by simp) hfull
      rw [grow_userid (by simp)] at hd
      obtain ⟨w', hrun, hr', hin'⟩ :=
        reading_more hr hh hroom (fun _ _ _ _ => true) (hsocks ▸ onRead_more hd)
      refine ⟨w', f, hw.step (.read (fun _ _ _ _ => trivial) (fun _ => hr.wantRead) hrun), hr', ?_⟩
      rw [hin', hin, flood_succ, List.map_append]
      rfl

/-- A user name that fills the frame. -/
theorem not_vecs_bounded : ∃ w, Reaches anyAnswer true 0 w ∧
    inputs w.trace = (flood 20424).map some ∧
      ¬∀ c ∈ w.proto.calls, c.taken = false → c.Bounded := by
  obtain ⟨w, f, hw, hr, hin⟩ := reaches_flood (n := 20424) (by decide)
  refine ⟨w, hw, hin, fun hb => ?_⟩
  have hroomy := hw.roomy (hin ▸ none_not_mem_flood _) hb
  obtain ⟨-, hfill⟩ := tracks_flood hw hin hroomy
  rw [hr.readFrame, Option.map_some] at hfill
  cases hfill with
  | jammed phase => cases phase
  | frame _ hfits => exact absurd (fits_flooded.mp hfits) (by decide)

end Growth

end Socks

end FrameTransporter
