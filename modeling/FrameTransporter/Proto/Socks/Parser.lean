import FrameTransporter.Proto.Socks.Basic

/-! # The SOCKS protocol as a parser of bytes

The requests of a client, read byte by byte and without frames. The parser knows
the fields that are complete, the bytes of the field being read and how many bytes
that field has room for. A complete message leads to a verdict, and the parser
starts again.
-/

namespace FrameTransporter

open Intrusive

namespace Socks

/-- The field that is being read. -/
inductive Phase
  | version
  | header4
  | userid
  | host
  | nmethods
  | methods
  | header5
  | ipv4
  | length
  | name
  | ipv6
  | port
  deriving DecidableEq, Repr

/-- What a complete message leads to: a request, which is refused if it names no target, the
selection of a method, or the end of the stream. -/
inductive Verdict
  | request (target : Option (Char × List UInt8 × ℕ))
  | select (method : UInt8)
  | close
  deriving DecidableEq

/-- How it goes on when a field is full: with the next field, with more bytes of the same field,
or with a verdict. -/
inductive Next
  | append (phase : Phase) (this : Socks) (n : ℕ)
  | grow (phase : Phase) (n : ℕ)
  | done (this : Socks) (verdict : Verdict)

/-- The bytes of a field as a memory. -/
def memory (field : List UInt8) : ℕ → UInt8 := fun i => field.getD i 0

@[simp] theorem memory_cons_zero (b : UInt8) (field : List UInt8) : memory (b :: field) 0 = b := rfl

/-- The target of a request in its fields. -/
def found (this : Socks) (fields : List (List UInt8)) :
    Socks × Option (Char × List UInt8 × ℕ) :=
  let address := fields.getD 2 []
  if this.VN = 4 ∧ this.Socks4A then
    (this, some ('D', cString ((fields.getD 3 []).take 255), this.DSTPORT))
  else if this.VN = 4 then
    (this, some ('4', snprintf 256 (dottedQuad this.DSTIP), this.DSTPORT))
  else if this.VN = 5 then
    if this.ATYP = 1 then
      let this := { this with DSTIP := loadU32 (memory address) 0 }
      (this, some ('4', snprintf 256 (dottedQuad this.DSTIP), this.DSTPORT))
    else if this.ATYP = 3 then
      (this, some ('D', snprintf 255 (cString address.tail), this.DSTPORT))
    else if this.ATYP = 4 then (this, some ('6', snprintf 255 (hexGroups address), this.DSTPORT))
    else (this, none)
  else (this, none)

/-- A request is refused for another command than CONNECT and for an empty host. -/
def requested (this : Socks) (fields : List (List UInt8)) : Next :=
  if this.CD ≠ 1 then .done this (.request none)
  else .done (found this fields).1 (.request ((found this fields).2.filter fun t => t.2.1 ≠ []))

/-- How it goes on when the bytes of `last` fill the field behind `fields`. -/
def next (this : Socks) (fields : List (List UInt8)) (last : List UInt8) : Phase → Next
  | .version =>
    if this.VN = 0 ∧ memory last 0 = 4 then .append .header4 { this with VN := 4 } 7
    else if this.VN = 0 ∧ memory last 0 = 5 then .append .nmethods { this with VN := 5 } 1
    else if this.VN = 0 then .done { this with VN := memory last 0 } .close
    else if this.VN = 5 ∧ this.authorized = true then .append .header5 this 3
    else .done this .close
  | .header4 =>
    .append .userid { this with
      CD := memory last 0
      DSTPORT := loadU16 (memory last) 1
      DSTIP := loadU32 (memory last) 3 } 1
  | .userid =>
    if last.getLast? ≠ some 0 then .grow .userid 1
    else if this.Socks4A then .append .host this 1
    else requested this (fields ++ [last])
  | .host =>
    if last.getLast? ≠ some 0 then .grow .host 1
    else requested this (fields ++ [last])
  | .nmethods =>
    if memory last 0 = 0 then .done this .close
    else .append .methods this (memory last 0).toNat
  | .methods =>
    if 0 ∈ last then .done { this with SELMETHOD := 0, authorized := true } (.select 0)
    else .done this (.select 0xFF)
  | .header5 =>
    if memory last 2 = 1 then .append .ipv4 { this with CD := memory last 0, ATYP := 1 } 4
    else if memory last 2 = 3 then .append .length { this with CD := memory last 0, ATYP := 3 } 1
    else if memory last 2 = 4 then .append .ipv6 { this with CD := memory last 0, ATYP := 4 } 16
    else .done { this with CD := memory last 0, ATYP := memory last 2 } .close
  | .length => .grow .name (memory last 0).toNat
  | .ipv4 | .name | .ipv6 => .append .port this 2
  | .port => requested { this with DSTPORT := loadU16 (memory last) 0 } (fields ++ [last])

/-- The room of a new field is a byte. -/
theorem next_append_lt {this this' : Socks} {fields : List (List UInt8)} {last : List UInt8}
    {phase phase' : Phase} {n : ℕ} (h : next this fields last phase = .append phase' this' n) :
    n < 2 ^ 8 := by
  have hreq : ∀ this'' fields', requested this'' fields' ≠ .append phase' this' n := by
    intro this'' fields'
    unfold requested
    split <;> rintro ⟨⟩
  cases phase with
  | length => cases h
  | header4 | ipv4 | name | ipv6 =>
    cases h
    decide
  | port => exact absurd h (hreq _ _)
  | nmethods =>
    simp only [next] at h
    split_ifs at h
    cases h
    exact UInt8.toNat_lt _
  | version | userid | host | methods | header5 =>
    simp only [next] at h
    split_ifs at h <;> first | exact absurd h (hreq _ _) | (cases h; decide)

/-- A message that is being read. -/
structure Parser where
  socks : Socks
  phase : Phase
  fields : List (List UInt8)
  part : List UInt8
  room : ℕ

namespace Parser

/-- Before the first byte of a message. -/
def start (this : Socks) : Parser := ⟨this, .version, [], [], 1⟩

variable (p : Parser)

/-- The bytes of the message that were read. -/
def bytes : List UInt8 := p.fields.flatten ++ p.part

/-- The parser behind the field, with the verdict if there is one. -/
def proceed (last : List UInt8) : Next → Parser × Option Verdict
  | .append phase this n => (⟨this, phase, p.fields ++ [last], [], n⟩, none)
  | .grow phase n => ({ p with phase, part := last, room := p.room + n }, none)
  | .done this verdict => (start this, some verdict)

/-- The parser after the bytes of `last` filled the field. -/
def filled (last : List UInt8) : Parser × Option Verdict :=
  p.proceed last (next p.socks p.fields last p.phase)

/-- A message goes on with all of its bytes, or a new one starts. -/
theorem bytes_filled (last : List UInt8) :
    (p.filled last).1.bytes = [] ∨ (p.filled last).1.bytes = p.fields.flatten ++ last := by
  unfold filled
  cases next p.socks p.fields last p.phase with
  | append => exact .inr (by simp [proceed, bytes])
  | grow => exact .inr rfl
  | done => exact .inl rfl

/-- The parser after one more byte. -/
def feed (b : UInt8) : Parser × Option Verdict :=
  if (p.part ++ [b]).length < p.room then ({ p with part := p.part ++ [b] }, none)
  else p.filled (p.part ++ [b])

end Parser

/-- A parser with the verdicts so far. After the end of the stream it reads nothing. -/
structure Machine where
  parser : Parser
  verdicts : List Verdict

namespace Machine

/-- The machine of a new stream. -/
def init (ATYP : UInt8) : Machine := ⟨.start (Socks.init ATYP), []⟩

def feed (m : Machine) (b : UInt8) : Machine :=
  if .close ∈ m.verdicts then m
  else ⟨(m.parser.feed b).1, m.verdicts ++ (m.parser.feed b).2.toList⟩

/-- The machine after some bytes. -/
def run (m : Machine) (bytes : List UInt8) : Machine := bytes.foldl feed m

variable {m : Machine} {bs bs' : List UInt8}

@[simp] theorem run_nil : m.run [] = m := rfl

@[simp] theorem run_cons (b : UInt8) : m.run (b :: bs) = (m.feed b).run bs := rfl

@[simp] theorem run_append : m.run (bs ++ bs') = (m.run bs).run bs' := List.foldl_append

theorem run_closed (h : .close ∈ m.verdicts) : m.run bs = m := by
  induction bs with
  | nil => rfl
  | cons b bs ih => rw [run_cons, feed, if_pos h, ih]

/-- Bytes that do not fill the field. -/
theorem run_part (hc : .close ∉ m.verdicts) (h : m.parser.part.length + bs.length < m.parser.room) :
    m.run bs = ⟨{ m.parser with part := m.parser.part ++ bs }, m.verdicts⟩ := by
  induction bs generalizing m with
  | nil => simp
  | cons b bs ih =>
    have hb : (m.parser.part ++ [b]).length < m.parser.room := by
      simp only [List.length_cons, List.length_append, List.length_nil] at h ⊢
      omega
    have hfeed : m.feed b = ⟨{ m.parser with part := m.parser.part ++ [b] }, m.verdicts⟩ := by
      rw [feed, if_neg hc, Parser.feed, if_pos hb]
      simp
    rw [run_cons, hfeed, ih (m := ⟨{ m.parser with part := m.parser.part ++ [b] }, m.verdicts⟩) hc]
    · simp
    · simp only [List.length_cons, List.length_append, List.length_nil] at h ⊢
      omega

/-- Bytes that fill the field. -/
theorem run_filled (hc : .close ∉ m.verdicts) (hbs : bs ≠ [])
    (h : m.parser.part.length + bs.length = m.parser.room) :
    m.run bs = ⟨(m.parser.filled (m.parser.part ++ bs)).1,
      m.verdicts ++ (m.parser.filled (m.parser.part ++ bs)).2.toList⟩ := by
  obtain rfl | ⟨bs, b, rfl⟩ := List.eq_nil_or_concat' bs
  · exact absurd rfl hbs
  · have hlen : m.parser.part.length + bs.length < m.parser.room := by
      simp only [List.length_append, List.length_cons, List.length_nil] at h
      omega
    rw [run_append, run_part hc hlen, run_cons, run_nil, feed, if_neg hc, Parser.feed, if_neg]
    · simp only [List.append_assoc]
      rfl
    · simp only [List.length_append, List.length_cons, List.length_nil] at h ⊢
      omega

end Machine

/-- Before a version is known, nothing is selected. -/
def Unset (this : Socks) : Prop :=
  this.VN = 0 → this.authorized = false ∧ this.SELMETHOD = 0xFF

/-- The protocol while a greeting of SOCKS5 is read. -/
structure Greeted (this : Socks) : Prop where
  VN : this.VN = 5
  authorized : this.authorized = false
  SELMETHOD : this.SELMETHOD = 0xFF

/-- The protocol while requests of SOCKS5 are read. -/
structure Authorized (this : Socks) : Prop where
  VN : this.VN = 5
  authorized : this.authorized = true

/-- What the second field of a SOCKS4 request says. -/
structure Header4 (this : Socks) (header : List UInt8) : Prop where
  VN : this.VN = 4
  length : header.length = 7
  CD : this.CD = memory header 0
  DSTPORT : this.DSTPORT = loadU16 (memory header) 1
  DSTIP : this.DSTIP = loadU32 (memory header) 3

/-- The field of an address of SOCKS5. -/
inductive Address : UInt8 → List UInt8 → Prop
  | ipv4 {a : List UInt8} (h : a.length = 4) : Address 1 a
  | name {n : UInt8} {a : List UInt8} (h : a.length = n.toNat) (hn : n ≠ 0) : Address 3 (n :: a)
  | ipv6 {a : List UInt8} (h : a.length = 16) : Address 4 a

namespace Parser

/-- What is known of the protocol and of the fields in each phase. -/
def Good (p : Parser) : Prop :=
  match p.phase with
  | .version => p = start p.socks ∧ Unset p.socks
  | .header4 => p.socks.VN = 4 ∧ p.fields = [[4]] ∧ p.room = 7 ∧ p.part.length < 7
  | .userid => (∃ header, Header4 p.socks header ∧ p.fields = [[4], header]) ∧
      0 ∉ p.part ∧ p.room = p.part.length + 1
  | .host => (∃ header userid, Header4 p.socks header ∧ p.socks.Socks4A ∧ 0 ∉ userid ∧
      p.fields = [[4], header, userid ++ [0]]) ∧ 0 ∉ p.part ∧ p.room = p.part.length + 1
  | .nmethods => Greeted p.socks ∧ p.fields = [[5]] ∧ p.part = [] ∧ p.room = 1
  | .methods => Greeted p.socks ∧ ∃ n, n ≠ 0 ∧ p.fields = [[5], [n]] ∧ p.room = n.toNat ∧
      p.part.length < n.toNat
  | .header5 => Authorized p.socks ∧ (∃ v, p.fields = [[v]]) ∧ p.room = 3 ∧ p.part.length < 3
  | .ipv4 => Authorized p.socks ∧ (∃ v r, p.fields = [[v], [p.socks.CD, r, 1]]) ∧
      p.socks.ATYP = 1 ∧ p.room = 4 ∧ p.part.length < 4
  | .length => Authorized p.socks ∧ (∃ v r, p.fields = [[v], [p.socks.CD, r, 3]]) ∧
      p.socks.ATYP = 3 ∧ p.room = 1 ∧ p.part = []
  | .name => Authorized p.socks ∧ (∃ v r, p.fields = [[v], [p.socks.CD, r, 3]]) ∧
      p.socks.ATYP = 3 ∧ ∃ n rest, p.part = n :: rest ∧ p.room = n.toNat + 1 ∧
        (rest.length < n.toNat ∨ n = 0 ∧ rest = [])
  | .ipv6 => Authorized p.socks ∧ (∃ v r, p.fields = [[v], [p.socks.CD, r, 4]]) ∧
      p.socks.ATYP = 4 ∧ p.room = 16 ∧ p.part.length < 16
  | .port => Authorized p.socks ∧ (∃ v r a, p.fields = [[v], [p.socks.CD, r, p.socks.ATYP], a] ∧
      Address p.socks.ATYP a) ∧ p.room = 2 ∧ p.part.length < 2

variable {p : Parser} {bs : List UInt8}

theorem good_start {this : Socks} (h : Unset this) : (start this).Good := ⟨rfl, h⟩

/-- Only after a length of zero there is no room for a byte. -/
theorem Good.lt_room (h : p.Good) (hp : p.phase ≠ .name) : p.part.length < p.room := by
  obtain ⟨this, phase, fields, part, room⟩ := p
  cases phase with
  | name => exact absurd rfl hp
  | version =>
    obtain ⟨h, -⟩ := h
    cases h
    exact Nat.zero_lt_one
  | header4 | header5 | ipv4 | ipv6 | methods | port | length | nmethods | userid | host =>
    simp only [Good] at h ⊢
    grind

/-- Bytes that do not fill the field keep what is known. -/
theorem Good.part (h : p.Good) (hbs : p.part.length + bs.length < p.room) :
    Good { p with part := p.part ++ bs } := by
  obtain ⟨this, phase, fields, part, room⟩ := p
  cases phase with
  | version =>
    obtain ⟨h, hu⟩ := h
    cases h
    obtain rfl : bs = [] := List.eq_nil_of_length_eq_zero (by simpa using hbs)
    exact ⟨rfl, hu⟩
  | userid | host | nmethods | length =>
    obtain rfl : bs = [] := List.eq_nil_of_length_eq_zero (by simp only [Good] at h; grind)
    simpa using h
  | header4 | header5 | ipv4 | ipv6 | methods | port =>
    simp only [Good, List.length_append] at h ⊢
    grind
  | name =>
    obtain ⟨ha, hf, hatyp, n, rest, hpart, hroom, _⟩ := h
    refine ⟨ha, hf, hatyp, n, rest ++ bs, ?_, hroom, Or.inl ?_⟩
    · dsimp only at hpart
      simp [hpart]
    · dsimp only at hpart hroom hbs
      rw [hpart, hroom, List.length_cons] at hbs
      rw [List.length_append]
      omega

theorem toNat_pos {b : UInt8} (h : b ≠ 0) : 0 < b.toNat :=
  Nat.pos_of_ne_zero fun h0 => h (UInt8.toNat_inj.mp h0)

theorem not_mem_concat {field : List UInt8} {b : UInt8} (h : 0 ∉ field) (hb : some b ≠ some 0) :
    0 ∉ field ++ [b] := by
  rw [List.mem_append, List.mem_singleton]
  rintro (h0 | rfl)
  · exact h h0
  · exact hb rfl

/-- A request ends the message. -/
theorem proceed_requested (this : Socks) (fields : List (List UInt8)) (last : List UInt8)
    (h : this.VN ≠ 0) : (p.proceed last (requested this fields)).1.Good := by
  have hfound : (found this fields).1.VN = this.VN := by
    unfold found
    split_ifs <;> rfl
  unfold requested
  split
  · exact good_start fun h0 => absurd h0 h
  · exact good_start fun h0 => absurd (hfound.symm.trans h0) h

/-- What is known before a field is full, and what is known after it. -/
theorem Good.filled (h : p.Good) (hbs : bs ≠ []) (hl : p.part.length + bs.length = p.room) :
    (p.filled (p.part ++ bs)).1.Good := by
  obtain ⟨this, phase, fields, part, room⟩ := p
  have hpos := List.length_pos_iff.mpr hbs
  unfold Parser.filled
  cases phase with
  | version =>
    obtain ⟨h, hu⟩ := h
    cases h
    obtain ⟨b, rfl⟩ : ∃ b, bs = [b] := List.length_eq_one_iff.mp (by simpa using hl)
    simp only [next, List.nil_append]
    split_ifs with h4 h5 h0 ha
    · obtain ⟨-, h4⟩ := h4
      obtain rfl : b = 4 := h4
      exact ⟨rfl, rfl, rfl, Nat.zero_lt_succ _⟩
    · obtain ⟨h0, h5⟩ := h5
      obtain rfl : b = 5 := h5
      exact ⟨⟨rfl, (hu h0).1, (hu h0).2⟩, rfl, rfl, rfl⟩
    · exact good_start fun _ => hu h0
    · exact ⟨⟨ha.1, ha.2⟩, ⟨b, rfl⟩, rfl, Nat.zero_lt_succ _⟩
    · exact good_start fun hv => absurd hv h0
  | header4 =>
    obtain ⟨hVN, hf, hr, -⟩ := h
    dsimp only at hf hr hl
    subst hf hr
    refine ⟨⟨part ++ bs, ⟨hVN, ?_, rfl, rfl, rfl⟩, rfl⟩, List.not_mem_nil, rfl⟩
    rw [List.length_append]
    exact hl
  | userid =>
    obtain ⟨⟨header, hh, hf⟩, hn, hr⟩ := h
    dsimp only at hf hr hl hn
    subst hf hr
    obtain ⟨b, rfl⟩ : ∃ b, bs = [b] := List.length_eq_one_iff.mp (by omega)
    simp only [next, List.getLast?_concat]
    split_ifs with hb ha
    · refine ⟨⟨header, hh, rfl⟩, not_mem_concat hn hb, ?_⟩
      simp [proceed]
    · obtain rfl : b = 0 := by simpa using hb
      exact ⟨⟨header, part, hh, ha, hn, rfl⟩, List.not_mem_nil, rfl⟩
    · exact proceed_requested _ _ _ (hh.VN ▸ by decide)
  | host =>
    obtain ⟨⟨header, userid, hh, ha, hu, hf⟩, hn, hr⟩ := h
    dsimp only at hf hr hl hn
    subst hf hr
    obtain ⟨b, rfl⟩ : ∃ b, bs = [b] := List.length_eq_one_iff.mp (by omega)
    simp only [next, List.getLast?_concat]
    split_ifs with hb
    · refine ⟨⟨header, userid, hh, ha, hu, rfl⟩, not_mem_concat hn hb, ?_⟩
      simp [proceed]
    · exact proceed_requested _ _ _ (hh.VN ▸ by decide)
  | nmethods =>
    obtain ⟨hg, hf, hp, hr⟩ := h
    dsimp only at hf hr hl hp
    subst hf hr hp
    obtain ⟨b, rfl⟩ : ∃ b, bs = [b] := List.length_eq_one_iff.mp (by simpa using hl)
    simp only [next, List.nil_append]
    split_ifs with hb
    · exact good_start fun h0 => absurd (hg.VN.symm.trans h0) (by decide)
    · exact ⟨hg, b, hb, rfl, rfl, toNat_pos hb⟩
  | methods =>
    obtain ⟨hg, -⟩ := h
    simp only [next]
    split_ifs <;> exact good_start fun h0 => absurd (hg.VN.symm.trans h0) (by decide)
  | header5 =>
    obtain ⟨ha, ⟨v, hf⟩, hr, -⟩ := h
    dsimp only at hf hr hl
    subst hf hr
    obtain ⟨c, r, t, hc⟩ : ∃ c r t, part ++ bs = [c, r, t] :=
      List.length_eq_three.mp (by simpa using hl)
    simp only [next, hc]
    split_ifs with h1 h3 h4
    · obtain rfl : t = 1 := h1
      exact ⟨⟨ha.VN, ha.authorized⟩, ⟨v, r, rfl⟩, rfl, rfl, Nat.zero_lt_succ _⟩
    · obtain rfl : t = 3 := h3
      exact ⟨⟨ha.VN, ha.authorized⟩, ⟨v, r, rfl⟩, rfl, rfl, rfl⟩
    · obtain rfl : t = 4 := h4
      exact ⟨⟨ha.VN, ha.authorized⟩, ⟨v, r, rfl⟩, rfl, rfl, Nat.zero_lt_succ _⟩
    · exact good_start fun h0 => absurd (ha.VN.symm.trans h0) (by decide)
  | length =>
    obtain ⟨ha, hf, ht, hr, hp⟩ := h
    dsimp only at hr hl hp
    subst hr hp
    obtain ⟨b, rfl⟩ : ∃ b, bs = [b] := List.length_eq_one_iff.mp (by simpa using hl)
    refine ⟨ha, hf, ht, b, [], rfl, Nat.add_comm _ _, ?_⟩
    by_cases hb : b = 0
    · exact Or.inr ⟨hb, rfl⟩
    · exact Or.inl (toNat_pos hb)
  | ipv4 =>
    obtain ⟨ha, ⟨v, r, hf⟩, ht, hr, -⟩ := h
    dsimp only at hf hr hl ht
    subst hf hr
    refine ⟨ha, ⟨v, r, part ++ bs, ?_, ?_⟩, rfl, Nat.zero_lt_succ _⟩
    · simp [proceed, next, ht]
    · simp only [proceed, next, ht]
      exact .ipv4 (by simpa using hl)
  | name =>
    obtain ⟨ha, ⟨v, r, hf⟩, ht, n, rest, hp, hr, hn⟩ := h
    dsimp only at hf hr hl ht hp
    subst hf hr hp
    have hlen : (rest ++ bs).length = n.toNat := by
      rw [List.length_append]
      rw [List.length_cons] at hl
      omega
    have hn0 : n ≠ 0 := by
      rintro rfl
      have h0 : (0 : UInt8).toNat = 0 := rfl
      rw [List.length_append] at hlen
      omega
    refine ⟨ha, ⟨v, r, n :: (rest ++ bs), ?_, ?_⟩, rfl, Nat.zero_lt_succ _⟩
    · simp [proceed, next, ht]
    · simp only [proceed, next, ht]
      exact .name hlen hn0
  | ipv6 =>
    obtain ⟨ha, ⟨v, r, hf⟩, ht, hr, -⟩ := h
    dsimp only at hf hr hl ht
    subst hf hr
    refine ⟨ha, ⟨v, r, part ++ bs, ?_, ?_⟩, rfl, Nat.zero_lt_succ _⟩
    · simp [proceed, next, ht]
    · simp only [proceed, next, ht]
      exact .ipv6 (by simpa using hl)
  | port =>
    obtain ⟨ha, -⟩ := h
    exact proceed_requested _ _ _ (ha.VN ▸ by decide)

end Parser

end Socks

end FrameTransporter
