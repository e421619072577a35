import FrameTransporter.Proto.Socks.Segmentation

/-! # Requests and what they ask for

A client encodes a destination in one of five forms. The connect delegate is called
with this destination if its name is not longer than the buffer for the host, and if
it is no address that marks a request of SOCKS4A.
-/

namespace FrameTransporter

open Hoare Intrusive

namespace Socks

open FrameTransporter.Stream

/-- A text that a zero can end. -/
abbrev Text := { s : List UInt8 // 0 ∉ s }

structure IPv4 where
  a : UInt8
  b : UInt8
  c : UInt8
  d : UInt8

namespace IPv4

variable (ip : IPv4)

def bytes : List UInt8 := [ip.a, ip.b, ip.c, ip.d]

def quad : List UInt8 :=
  decimal ip.a.toNat ++ 46 :: decimal ip.b.toNat ++ 46 :: decimal ip.c.toNat ++ 46 ::
    decimal ip.d.toNat

/-- The number of the address. -/
def toNat : ℕ :=
  2 ^ 24 * ip.a.toNat + 2 ^ 16 * ip.b.toNat + 2 ^ 8 * ip.c.toNat + ip.d.toNat

/-- The address stands for the name of SOCKS4A. -/
def Marks : Prop := ip.a = 0 ∧ ip.b = 0 ∧ ip.c = 0 ∧ ip.d ≠ 0

end IPv4

/-- A greeting of SOCKS5 that offers the method without authentication. -/
structure Hello where
  methods : List UInt8
  offers : 0 ∈ methods
  short : methods.length < 256

def Hello.bytes (hello : Hello) : List UInt8 :=
  5 :: UInt8.ofNat hello.methods.length :: hello.methods

/-- A CONNECT request. -/
inductive Request
  | socks4 (userid : Text) (ip : IPv4) (port : UInt16)
  | socks4a (userid name : Text) (mark : UInt8) (port : UInt16) (marks : mark ≠ 0)
    (named : name.1 ≠ [])
  | ipv4 (hello : Hello) (ip : IPv4) (port : UInt16)
  | domain (hello : Hello) (name : Text) (port : UInt16) (named : name.1 ≠ [])
    (short : name.1.length < 256)
  | ipv6 (hello : Hello) (ip : Fin 16 → UInt8) (port : UInt16)

def portBytes (port : UInt16) : List UInt8 := [(port >>> 8).toUInt8, port.toUInt8]

namespace Request

/-- What a client sends, behind its greeting if it speaks SOCKS5. -/
def bytes : Request → List UInt8
  | socks4 userid ip port => [4, 1] ++ portBytes port ++ ip.bytes ++ userid.1 ++ [0]
  | socks4a userid name mark port _ _ =>
    [4, 1] ++ portBytes port ++ [0, 0, 0, mark] ++ userid.1 ++ [0] ++ name.1 ++ [0]
  | ipv4 hello ip port => hello.bytes ++ [5, 1, 0, 1] ++ ip.bytes ++ portBytes port
  | domain hello name port _ _ =>
    hello.bytes ++ [5, 1, 0, 3, UInt8.ofNat name.1.length] ++ name.1 ++ portBytes port
  | ipv6 hello ip port => hello.bytes ++ [5, 1, 0, 4] ++ List.ofFn ip ++ portBytes port

/-- The destination. -/
def target : Request → Char × List UInt8 × ℕ
  | socks4 _ ip port | ipv4 _ ip port => ('4', ip.quad, port.toNat)
  | socks4a _ name _ port _ _ | domain _ name port _ _ => ('D', name, port.toNat)
  | ipv6 _ ip port => ('6', hexGroups (List.ofFn ip), port.toNat)

/-- The name fits in the buffer of the host, and the address is one. -/
def Exact : Request → Prop
  | socks4 _ ip _ => ¬ip.Marks
  | socks4a _ name _ _ _ _ => name.1.length ≤ 255
  | domain _ name _ _ _ => name.1.length ≤ 254
  | ipv4 _ _ _ | ipv6 _ _ _ => True

end Request

section Texts

theorem loadU16_portBytes (port : UInt16) (pre post : List UInt8) :
    loadU16 (memory (pre ++ portBytes port ++ post)) pre.length = port.toNat := by
  have h0 : memory (pre ++ portBytes port ++ post) pre.length = (port >>> 8).toUInt8 := by
    simp [memory, portBytes]
  have h1 : memory (pre ++ portBytes port ++ post) (pre.length + 1) = port.toUInt8 := by
    simp [memory, portBytes]
  have hlt := port.toNat_lt
  rw [loadU16_eq, h0, h1, UInt16.toNat_toUInt8, UInt16.toNat_toUInt8, UInt16.toNat_shiftRight]
  change 2 ^ 8 * (port.toNat >>> 8 % 2 ^ 8) + port.toNat % 2 ^ 8 = port.toNat
  rw [Nat.shiftRight_eq_div_pow]
  omega

theorem loadU32_bytes (ip : IPv4) (pre post : List UInt8) :
    loadU32 (memory (pre ++ ip.bytes ++ post)) pre.length = ip.toNat := by
  have hi : ∀ i < 4, memory (pre ++ ip.bytes ++ post) (pre.length + i) = memory ip.bytes i := by
    intro i hi
    have hlt : i < ip.bytes.length := hi
    simp [memory, List.getElem?_append_right, List.getElem?_append_left hlt]
  rw [loadU32_eq, hi 1 (by decide), hi 2 (by decide), hi 3 (by decide), ← Nat.add_zero pre.length,
    hi 0 (by decide)]
  rfl

theorem IPv4.dottedQuad_toNat (ip : IPv4) : dottedQuad ip.toNat = ip.quad := by
  have ha := ip.a.toNat_lt
  have hb := ip.b.toNat_lt
  have hc := ip.c.toNat_lt
  have hd := ip.d.toNat_lt
  have h1 : ip.toNat >>> 24 % 256 = ip.a.toNat := by
    rw [IPv4.toNat, Nat.shiftRight_eq_div_pow]
    omega
  have h2 : ip.toNat >>> 16 % 256 = ip.b.toNat := by
    rw [IPv4.toNat, Nat.shiftRight_eq_div_pow]
    omega
  have h3 : ip.toNat >>> 8 % 256 = ip.c.toNat := by
    rw [IPv4.toNat, Nat.shiftRight_eq_div_pow]
    omega
  have h4 : ip.toNat % 256 = ip.d.toNat := by
    rw [IPv4.toNat]
    omega
  rw [dottedQuad, h1, h2, h3, h4, IPv4.quad]

theorem IPv4.marks_iff (ip : IPv4) : 0 < ip.toNat ∧ ip.toNat ≤ 255 ↔ ip.Marks := by
  have hd := ip.d.toNat_lt
  have h0 : (0 : UInt8).toNat = 0 := rfl
  rw [IPv4.Marks, IPv4.toNat, ne_eq, ← UInt8.toNat_inj, ← UInt8.toNat_inj, ← UInt8.toNat_inj,
    ← UInt8.toNat_inj]
  omega

/-- A byte has at most three digits. -/
theorem length_decimal (b : UInt8) : (decimal b.toNat).length ≤ 3 := by
  have h : ∀ n < 256, (decimal n).length ≤ 3 := by decide +kernel
  exact h _ b.toNat_lt

theorem snprintf_quad (ip : IPv4) : snprintf 256 ip.quad = ip.quad := by
  have ha := length_decimal ip.a
  have hb := length_decimal ip.b
  have hc := length_decimal ip.c
  have hd := length_decimal ip.d
  refine List.take_of_length_le ?_
  simp only [IPv4.quad, List.length_append, List.length_cons]
  omega

/-- Eight groups and seven colons. -/
theorem length_hexGroups (ip : Fin 16 → UInt8) : (hexGroups (List.ofFn ip)).length = 39 := by
  simp [List.ofFn_succ, hexGroups, hexByte]

theorem cString_text {text : List UInt8} (h : 0 ∉ text) : cString text = text :=
  List.takeWhile_eq_self_iff.mpr fun b hb => by simpa using fun h0 : b = 0 => h (h0 ▸ hb)

end Texts

section Machines

variable {this : Socks} {fields : List (List UInt8)} {part text : List UInt8} {phase : Phase}
  {vs : List Verdict}

/-- A text is read byte by byte. -/
theorem run_text (part : List UInt8) (hc : .close ∉ vs) (h0 : 0 ∉ text)
    (hgrow : ∀ last : List UInt8, last.getLast? ≠ some 0 →
      next this fields last phase = .grow phase 1) :
    Machine.run ⟨⟨this, phase, fields, part, part.length + 1⟩, vs⟩ text =
      ⟨⟨this, phase, fields, part ++ text, (part ++ text).length + 1⟩, vs⟩ := by
  induction text generalizing part with
  | nil => simp
  | cons b text ih =>
    obtain ⟨hb, h0⟩ := not_or.mp (mt List.mem_cons.mpr h0)
    have hlast : (part ++ [b]).getLast? ≠ some 0 := by simpa using fun h => hb h.symm
    have hlen : (part ++ [b]).length = part.length + 1 := List.length_append ..
    have hrun := Machine.run_filled (m := ⟨⟨this, phase, fields, part, part.length + 1⟩, vs⟩) hc
      (List.cons_ne_nil b []) rfl
    rw [Parser.filled, hgrow _ hlast] at hrun
    have hmore := ih (part ++ [b]) h0
    rw [← List.singleton_append, Machine.run_append, hrun]
    simp only [Parser.proceed, Option.toList_none, List.append_nil]
    rw [← hlen, hmore]
    simp

theorem grow_userid {last : List UInt8} (h : last.getLast? ≠ some 0) :
    next this fields last .userid = .grow .userid 1 := if_pos h

theorem grow_host {last : List UInt8} (h : last.getLast? ≠ some 0) :
    next this fields last .host = .grow .host 1 := if_pos h

/-- The header of a SOCKS4 request, behind its version. -/
def header4 (ip : IPv4) (port : UInt16) : List UInt8 := [1] ++ portBytes port ++ ip.bytes

/-- The protocol behind the header of a SOCKS4 request. -/
def asked4 (ATYP : UInt8) (ip : IPv4) (port : UInt16) : Socks :=
  { Socks.init ATYP with VN := 4, CD := 1, DSTPORT := port.toNat, DSTIP := ip.toNat }

theorem run_header4 (ATYP : UInt8) (ip : IPv4) (port : UInt16) :
    (Machine.init ATYP).run (4 :: header4 ip port) =
      ⟨⟨asked4 ATYP ip port, .userid, [[4], header4 ip port], [], 1⟩, []⟩ := by
  have hport : loadU16 (memory (header4 ip port)) 1 = port.toNat :=
    loadU16_portBytes port [1] ip.bytes
  have hip : loadU32 (memory (header4 ip port)) 3 = ip.toNat := by
    have h := loadU32_bytes ip ([1] ++ portBytes port) []
    rwa [List.append_nil] at h
  have hne : header4 ip port ≠ [] := List.cons_ne_nil _ _
  have hversion : (Machine.init ATYP).run [4] =
      ⟨⟨{ Socks.init ATYP with VN := 4 }, .header4, [[4]], [], 7⟩, []⟩ := rfl
  rw [← List.singleton_append, Machine.run_append, hversion,
    Machine.run_filled List.not_mem_nil hne rfl, asked4, ← hport, ← hip]
  rfl

/-- The end of a text that was read byte by byte. -/
theorem run_text_end (hc : .close ∉ vs) (h0 : 0 ∉ text)
    (hgrow : ∀ last : List UInt8, last.getLast? ≠ some 0 →
      next this fields last phase = .grow phase 1) :
    Machine.run ⟨⟨this, phase, fields, [], 1⟩, vs⟩ (text ++ [0]) =
      ⟨(Parser.filled ⟨this, phase, fields, text, text.length + 1⟩ (text ++ [0])).1,
        vs ++ (Parser.filled ⟨this, phase, fields, text, text.length + 1⟩
          (text ++ [0])).2.toList⟩ := by
  have htext := run_text [] hc h0 hgrow
  rw [List.nil_append] at htext
  rw [Machine.run_append]
  refine (congrArg (Machine.run · [0]) htext).trans ?_
  exact Machine.run_filled (m := ⟨⟨this, phase, fields, text, text.length + 1⟩, vs⟩) hc
    (List.cons_ne_nil 0 []) rfl

variable (ATYP : UInt8) (userid : Text) {ip : IPv4} (port : UInt16) (hello : Hello)

/-- What a request of SOCKS4 leads to. -/
theorem run_socks4 (h : ¬ip.Marks) :
    (Machine.init ATYP).run (Request.socks4 userid ip port).bytes =
      ⟨.start (asked4 ATYP ip port), [.request (some ('4', ip.quad, port.toNat))]⟩ := by
  have hbytes : (Request.socks4 userid ip port).bytes =
      (4 :: header4 ip port) ++ (userid.1 ++ [0]) := by simp [Request.bytes, header4]
  have h4a : ¬(asked4 ATYP ip port).Socks4A := fun ha => h (ip.marks_iff.mp ha)
  have hcd : (asked4 ATYP ip port).CD = 1 := rfl
  have hfound : ∀ fields, found (asked4 ATYP ip port) fields =
      (asked4 ATYP ip port, some ('4', ip.quad, port.toNat)) := by
    intro fields
    rw [found, if_neg fun ha => h4a ha.2]
    refine (if_pos rfl).trans ?_
    rw [← snprintf_quad, ← ip.dottedQuad_toNat]
    rfl
  have hnext : next (asked4 ATYP ip port) [[4], header4 ip port] (userid.1 ++ [0]) .userid =
      .done (asked4 ATYP ip port) (.request (some ('4', ip.quad, port.toNat))) := by
    rw [next, if_neg (by simp), if_neg h4a, requested, if_neg (not_not_intro hcd), hfound,
      Option.filter_some_pos (by simp [IPv4.quad])]
  rw [hbytes, Machine.run_append, run_header4, run_text_end List.not_mem_nil userid.2
    fun _ => grow_userid, Parser.filled, hnext]
  rfl

/-- Behind the user name of SOCKS4A the host is read. -/
theorem run_userid (h : ip.Marks) :
    (Machine.init ATYP).run (Request.socks4 userid ip port).bytes =
      ⟨⟨asked4 ATYP ip port, .host, [[4], header4 ip port, userid.1 ++ [0]], [], 1⟩, []⟩ := by
  have hbytes : (Request.socks4 userid ip port).bytes =
      (4 :: header4 ip port) ++ (userid.1 ++ [0]) := by simp [Request.bytes, header4]
  have h4a : (asked4 ATYP ip port).Socks4A := ip.marks_iff.mpr h
  have hnext : next (asked4 ATYP ip port) [[4], header4 ip port] (userid.1 ++ [0]) .userid =
      .append .host (asked4 ATYP ip port) 1 := by
    rw [next, if_neg (by simp), if_pos h4a]
  rw [hbytes, Machine.run_append, run_header4, run_text_end List.not_mem_nil userid.2
    fun _ => grow_userid, Parser.filled, hnext]
  rfl

theorem cString_take {text : List UInt8} (h : 0 ∉ text) (n : ℕ) :
    cString ((text ++ [0]).take n) = text.take n := by
  rw [List.take_append, cString, List.takeWhile_append_of_pos]
  · have hnil : (List.take (n - text.length) [(0 : UInt8)]).takeWhile (· ≠ 0) = [] := by
      cases n - text.length <;> rfl
    rw [hnil, List.append_nil]
  · intro b hb
    simpa using fun h0 : b = 0 => h (h0 ▸ List.mem_of_mem_take hb)

/-- What a host of SOCKS4A leads to. -/
theorem run_host (h : ip.Marks) {name : List UInt8} (h0 : 0 ∉ name) (field : List UInt8) :
    Machine.run ⟨⟨asked4 ATYP ip port, .host, [[4], header4 ip port, field], [], 1⟩, []⟩
        (name ++ [0]) =
      ⟨.start (asked4 ATYP ip port),
        [.request (if name = [] then none else some ('D', name.take 255, port.toNat))]⟩ := by
  have h4a : (asked4 ATYP ip port).Socks4A := ip.marks_iff.mpr h
  have hcd : (asked4 ATYP ip port).CD = 1 := rfl
  have hfound : found (asked4 ATYP ip port) ([[4], header4 ip port, field] ++ [name ++ [0]]) =
      (asked4 ATYP ip port, some ('D', name.take 255, port.toNat)) := by
    rw [found, if_pos ⟨rfl, h4a⟩, ← cString_take h0]
    rfl
  have hnext : next (asked4 ATYP ip port) [[4], header4 ip port, field] (name ++ [0]) .host =
      .done (asked4 ATYP ip port)
        (.request (if name = [] then none else some ('D', name.take 255, port.toNat))) := by
    rw [next, if_neg (by simp), requested, if_neg (not_not_intro hcd), hfound]
    by_cases hn : name = []
    · rw [if_pos hn, Option.filter_some_neg (by simp [hn])]
    · rw [if_neg hn, Option.filter_some_pos (by simp [hn])]
  rw [run_text_end List.not_mem_nil h0 fun _ => grow_host, Parser.filled, hnext]
  rfl

/-- The protocol of an authorized client. -/
def greeted (ATYP : UInt8) : Socks :=
  { Socks.init ATYP with VN := 5, SELMETHOD := 0, authorized := true }

theorem run_hello :
    (Machine.init ATYP).run hello.bytes = ⟨.start (greeted ATYP), [.select 0]⟩ := by
  have hpos : 0 < hello.methods.length := List.length_pos_of_mem hello.offers
  have hn : (UInt8.ofNat hello.methods.length).toNat = hello.methods.length :=
    Nat.mod_eq_of_lt hello.short
  have h0 : UInt8.ofNat hello.methods.length ≠ 0 := fun h => by
    rw [h] at hn
    exact absurd hn hpos.ne
  have hversion : (Machine.init ATYP).run [5] =
      ⟨⟨{ Socks.init ATYP with VN := 5 }, .nmethods, [[5]], [], 1⟩, []⟩ := rfl
  have hbytes : hello.bytes = [5] ++ [UInt8.ofNat hello.methods.length] ++ hello.methods := rfl
  rw [hbytes, Machine.run_append, Machine.run_append, hversion]
  generalize UInt8.ofNat hello.methods.length = n at hn h0
  have hcount : Machine.run ⟨⟨{ Socks.init ATYP with VN := 5 }, .nmethods, [[5]], [], 1⟩, []⟩ [n] =
      ⟨⟨{ Socks.init ATYP with VN := 5 }, .methods, [[5], [n]], [], n.toNat⟩, []⟩ := by
    have hnext : next { Socks.init ATYP with VN := 5 } [[5]] [n] .nmethods =
        .append .methods { Socks.init ATYP with VN := 5 } n.toNat := if_neg h0
    rw [Machine.run_filled List.not_mem_nil (List.cons_ne_nil n []) rfl, Parser.filled,
      List.nil_append, hnext]
    rfl
  have hroom : ([] : List UInt8).length + hello.methods.length = n.toNat := by simp [hn]
  rw [hcount, Machine.run_filled List.not_mem_nil (List.ne_nil_of_mem hello.offers) hroom,
    Parser.filled, next, List.nil_append, if_pos hello.offers]
  rfl

/-- What the port of a request of SOCKS5 leads to. -/
theorem run_port {this : Socks} {t : Char × List UInt8} (hcd : this.CD = 1) (hne : t.2 ≠ [])
    (hfound : (found { this with DSTPORT := port.toNat } (fields ++ [portBytes port])).2 =
      some (t.1, t.2, port.toNat)) (hc : .close ∉ vs) :
    ∃ this', Machine.run ⟨⟨this, .port, fields, [], 2⟩, vs⟩ (portBytes port) =
      ⟨.start this', vs ++ [.request (some (t.1, t.2, port.toNat))]⟩ := by
  have hp : loadU16 (memory (portBytes port)) 0 = port.toNat := by
    have h := loadU16_portBytes port [] []
    rwa [List.append_nil] at h
  have hnext : ∃ this', next this fields (portBytes port) .port =
      .done this' (.request (some (t.1, t.2, port.toNat))) := by
    rw [next, hp, requested, if_neg (not_not_intro hcd), hfound,
      Option.filter_some_pos (by simpa using hne)]
    exact ⟨_, rfl⟩
  obtain ⟨this', hnext⟩ := hnext
  have hport : portBytes port ≠ [] := List.cons_ne_nil _ _
  rw [Machine.run_filled hc hport rfl, Parser.filled, List.nil_append, hnext]
  exact ⟨this', rfl⟩

theorem close_not_selected : .close ∉ [Verdict.select 0] := by simp

/-- The protocol behind the header of a CONNECT request of SOCKS5. -/
def asked5 (ATYP : UInt8) : Socks := { greeted ATYP with CD := 1 }

/-- What the header of a CONNECT request of SOCKS5 leads to. -/
theorem run_header5 {t : UInt8} {n : ℕ}
    (hnext : next (greeted ATYP) [[5]] [1, 0, t] .header5 = .append phase (asked5 t) n) :
    Machine.run ⟨.start (greeted ATYP), [.select 0]⟩ [5, 1, 0, t] =
      ⟨⟨asked5 t, phase, [[5], [1, 0, t]], [], n⟩, [.select 0]⟩ := by
  have hversion : Machine.run ⟨.start (greeted ATYP), [.select 0]⟩ [5] =
      ⟨⟨greeted ATYP, .header5, [[5]], [], 3⟩, [.select 0]⟩ := rfl
  have hne : [1, 0, t] ≠ [] := List.cons_ne_nil _ _
  have hbytes : [5, 1, 0, t] = [5] ++ [1, 0, t] := rfl
  rw [hbytes, Machine.run_append, hversion, Machine.run_filled close_not_selected hne rfl,
    Parser.filled, List.nil_append, hnext]
  rfl

theorem run_ipv4 (ip : IPv4) : ∃ this, (Machine.init ATYP).run (Request.ipv4 hello ip port).bytes =
    ⟨.start this, [.select 0, .request (some ('4', ip.quad, port.toNat))]⟩ := by
  have hnext : next (greeted ATYP) [[5]] [1, 0, 1] .header5 = .append .ipv4 (asked5 1) 4 := by
    rw [next, if_pos (by decide)]
    rfl
  have hheader := run_header5 ATYP hnext
  have haddr : Machine.run ⟨⟨asked5 1, .ipv4, [[5], [1, 0, 1]], [], 4⟩, [.select 0]⟩ ip.bytes =
      ⟨⟨asked5 1, .port, [[5], [1, 0, 1], ip.bytes], [], 2⟩, [.select 0]⟩ := by
    have hne : ip.bytes ≠ [] := List.cons_ne_nil _ _
    rw [Machine.run_filled close_not_selected hne rfl]
    rfl
  have hip : loadU32 (memory ip.bytes) 0 = ip.toNat := by
    have h := loadU32_bytes ip [] []
    rwa [List.append_nil] at h
  rw [Request.bytes, Machine.run_append, Machine.run_append, Machine.run_append, run_hello, hheader,
    haddr]
  refine run_port port (t := ('4', ip.quad)) rfl (by simp [IPv4.quad]) ?_ close_not_selected
  rw [← snprintf_quad, ← ip.dottedQuad_toNat, ← hip]
  rfl

theorem run_ipv6 (ip : Fin 16 → UInt8) : ∃ this,
    (Machine.init ATYP).run (Request.ipv6 hello ip port).bytes =
      ⟨.start this, [.select 0, .request (some ('6', hexGroups (List.ofFn ip), port.toNat))]⟩ := by
  have hnext : next (greeted ATYP) [[5]] [1, 0, 4] .header5 = .append .ipv6 (asked5 4) 16 := by
    rw [next, if_neg (by decide), if_neg (by decide), if_pos (by decide)]
    rfl
  have hheader := run_header5 ATYP hnext
  have haddr : Machine.run ⟨⟨asked5 4, .ipv6, [[5], [1, 0, 4]], [], 16⟩, [.select 0]⟩
      (List.ofFn ip) =
      ⟨⟨asked5 4, .port, [[5], [1, 0, 4], List.ofFn ip], [], 2⟩, [.select 0]⟩ := by
    have hroom : ([] : List UInt8).length + (List.ofFn ip).length = 16 := by simp
    have hne : List.ofFn ip ≠ [] := by simp
    rw [Machine.run_filled close_not_selected hne hroom]
    rfl
  have hhex : snprintf 255 (hexGroups (List.ofFn ip)) = hexGroups (List.ofFn ip) :=
    List.take_of_length_le ((length_hexGroups ip).trans_le (by decide))
  rw [Request.bytes, Machine.run_append, Machine.run_append, Machine.run_append, run_hello, hheader,
    haddr]
  refine run_port port (t := ('6', hexGroups (List.ofFn ip))) rfl
    (hexGroups_ne_nil (by simp)) ?_ close_not_selected
  rw [← hhex]
  rfl

theorem run_domain {name : Text} (hn : name.1 ≠ []) (hl : name.1.length < 256) : ∃ this,
    (Machine.init ATYP).run (Request.domain hello name port hn hl).bytes =
      ⟨.start this, [.select 0, .request (some ('D', name.1.take 254, port.toNat))]⟩ := by
  have hlen : (UInt8.ofNat name.1.length).toNat = name.1.length := Nat.mod_eq_of_lt hl
  have hbytes : (Request.domain hello name port hn hl).bytes = hello.bytes ++ [5, 1, 0, 3] ++
      [UInt8.ofNat name.1.length] ++ name.1 ++ portBytes port := by simp [Request.bytes]
  rw [hbytes]
  generalize UInt8.ofNat name.1.length = n at hlen
  have hnext : next (greeted ATYP) [[5]] [1, 0, 3] .header5 = .append .length (asked5 3) 1 := by
    rw [next, if_neg (by decide), if_pos (by decide)]
    rfl
  have hheader := run_header5 ATYP hnext
  have hcount : Machine.run ⟨⟨asked5 3, .length, [[5], [1, 0, 3]], [], 1⟩, [.select 0]⟩ [n] =
      ⟨⟨asked5 3, .name, [[5], [1, 0, 3]], [n], 1 + n.toNat⟩, [.select 0]⟩ := by
    rw [Machine.run_filled close_not_selected (List.cons_ne_nil n []) rfl]
    rfl
  have hname : Machine.run ⟨⟨asked5 3, .name, [[5], [1, 0, 3]], [n], 1 + n.toNat⟩, [.select 0]⟩
      name.1 = ⟨⟨asked5 3, .port, [[5], [1, 0, 3], n :: name.1], [], 2⟩, [.select 0]⟩ := by
    have hroom : [n].length + name.1.length = 1 + n.toNat := by rw [hlen, List.length_singleton]
    rw [Machine.run_filled close_not_selected hn hroom]
    rfl
  have hhost : snprintf 255 (cString name.1) = name.1.take 254 := by rw [cString_text name.2]; rfl
  rw [Machine.run_append, Machine.run_append, Machine.run_append, Machine.run_append, run_hello,
    hheader, hcount, hname]
  refine run_port port (t := ('D', name.1.take 254)) rfl (by simpa using hn) ?_ close_not_selected
  rw [← hhost]
  rfl

theorem run_socks4a (name : Text) {mark : UInt8} (hm : mark ≠ 0) (hn : name.1 ≠ []) :
    (Machine.init ATYP).run (Request.socks4a userid name mark port hm hn).bytes =
      ⟨.start (asked4 ATYP ⟨0, 0, 0, mark⟩ port),
        [.request (some ('D', name.1.take 255, port.toNat))]⟩ := by
  have hmarks : IPv4.Marks ⟨0, 0, 0, mark⟩ := ⟨rfl, rfl, rfl, hm⟩
  have hbytes : (Request.socks4a userid name mark port hm hn).bytes =
      (Request.socks4 userid ⟨0, 0, 0, mark⟩ port).bytes ++ (name.1 ++ [0]) := by
    simp [Request.bytes, IPv4.bytes]
  rw [hbytes, Machine.run_append, run_userid ATYP userid port hmarks,
    run_host ATYP port hmarks name.2, if_neg hn]

/-- A client of SOCKS4 is not read any more behind its request. -/
theorem run_closes (h4 : this.VN = 4) (hc : .close ∉ vs) (bs : List UInt8) :
    ∃ more, (∀ v ∈ more, v = .close) ∧
      (Machine.run ⟨.start this, vs⟩ bs).verdicts = vs ++ more := by
  cases bs with
  | nil => exact ⟨[], by rintro _ ⟨⟩, (List.append_nil vs).symm⟩
  | cons b bs =>
    have hnext : next this [] [b] .version = .done this .close := by
      rw [next, if_neg fun h => absurd (h4.symm.trans h.1) (by decide),
        if_neg fun h => absurd (h4.symm.trans h.1) (by decide),
        if_neg fun h => absurd (h4.symm.trans h) (by decide),
        if_neg fun h => absurd (h4.symm.trans h.1) (by decide)]
    have hrun := Machine.run_filled (m := ⟨.start this, vs⟩) hc (List.cons_ne_nil b []) rfl
    have hfilled : (Parser.start this).filled [b] = (.start this, some .close) := by
      rw [Parser.filled]
      exact congrArg _ hnext
    refine ⟨[.close], fun v hv => List.mem_singleton.mp hv, ?_⟩
    rw [← List.singleton_append, Machine.run_append, hrun]
    change (Machine.run ⟨((Parser.start this).filled [b]).1,
      vs ++ ((Parser.start this).filled [b]).2.toList⟩ bs).verdicts = _
    rw [hfilled, Machine.run_closed (by simp)]
    rfl

/-- Behind an address that marks SOCKS4A there is a name or nothing. -/
theorem run_marked (h : ip.Marks) (rest : List UInt8) : ∀ t ∈ ((Machine.init ATYP).run
    ((Request.socks4 userid ip port).bytes ++ rest)).verdicts.filterMap Verdict.target,
      t.1 = 'D' := by
  rw [Machine.run_append, run_userid ATYP userid port h]
  by_cases h0 : 0 ∈ rest
  · obtain ⟨name, rest, rfl, hname⟩ := List.eq_append_cons_of_mem h0
    have hrest : name ++ 0 :: rest = (name ++ [0]) ++ rest := List.append_cons ..
    rw [hrest, Machine.run_append, run_host ATYP port h hname]
    have h4 : (asked4 ATYP ip port).VN = 4 := rfl
    have hc : .close ∉ [Verdict.request
      (if name = [] then none else some ('D', name.take 255, port.toNat))] := by simp
    obtain ⟨more, hmore, hv⟩ := run_closes h4 hc rest
    rw [hv]
    intro t ht
    obtain ⟨v, hmem, htarget⟩ := List.mem_filterMap.mp ht
    rcases List.mem_append.mp hmem with hmem | hmem
    · obtain rfl := List.mem_singleton.mp hmem
      change (if name = [] then none else some _) = some t at htarget
      split at htarget
      · cases htarget
      · cases htarget
        rfl
    · rw [hmore v hmem] at htarget
      cases htarget
  · have htext : Machine.run ⟨⟨asked4 ATYP ip port, .host, [[4], header4 ip port, userid.1 ++ [0]],
        [], 1⟩, []⟩ rest = _ := run_text [] List.not_mem_nil h0 fun _ => grow_host
    intro t ht
    rw [htext] at ht
    cases ht

/-- Verdicts stay. -/
theorem verdicts_prefix (m : Machine) (bs : List UInt8) : m.verdicts <+: (m.run bs).verdicts := by
  induction bs generalizing m with
  | nil => exact List.prefix_rfl
  | cons b bs ih =>
    refine List.IsPrefix.trans ?_ (ih (m.feed b))
    unfold Machine.feed
    split
    · exact List.prefix_rfl
    · exact List.prefix_append ..

/-- The first target is the destination if its name is whole. -/
theorem head_targets (r : Request) (rest : List UInt8) : (((Machine.init ATYP).run
    (r.bytes ++ rest)).verdicts.filterMap Verdict.target).head? = some r.target ↔ r.Exact := by
  have hhead : ∀ t vs, ((Machine.init ATYP).run r.bytes).verdicts.filterMap Verdict.target =
      t :: vs → (((Machine.init ATYP).run (r.bytes ++ rest)).verdicts.filterMap
        Verdict.target).head? = some t := by
    intro t vs h
    obtain ⟨more, hmore⟩ := verdicts_prefix ((Machine.init ATYP).run r.bytes) rest
    rw [Machine.run_append, ← hmore, List.filterMap_append, h]
    rfl
  cases r with
  | socks4 userid ip port =>
    by_cases hm : ip.Marks
    · refine iff_of_false (fun h => ?_) (not_not_intro hm)
      have hD := run_marked ATYP userid port hm rest _ (List.mem_of_head? h)
      exact absurd hD (by simp [Request.target])
    · refine iff_of_true (hhead _ [] ?_) hm
      rw [run_socks4 ATYP userid port hm]
      rfl
  | socks4a userid name mark port hm hn =>
    rw [hhead ('D', name.1.take 255, port.toNat) []
      (by rw [run_socks4a ATYP userid port name hm hn]; rfl)]
    simp [Request.target, Request.Exact]
  | ipv4 hello ip port =>
    obtain ⟨this, hrun⟩ := run_ipv4 ATYP port hello ip
    refine iff_of_true (hhead _ [] ?_) trivial
    rw [hrun]
    rfl
  | domain hello name port hn hl =>
    obtain ⟨this, hrun⟩ := run_domain ATYP port hello hn hl
    rw [hhead ('D', name.1.take 254, port.toNat) [] (by rw [hrun]; rfl)]
    simp [Request.target, Request.Exact]
  | ipv6 hello ip port =>
    obtain ⟨this, hrun⟩ := run_ipv6 ATYP port hello ip
    refine iff_of_true (hhead _ [] ?_) trivial
    rw [hrun]
    rfl

end Machines

section Room

variable {p : Parser} {last : List UInt8} {bs : List UInt8} {ATYP : UInt8}

/-- The port behind a name whose length is zero. -/
structure Stray (p : Parser) : Prop where
  authorized : Authorized p.socks
  phase : p.phase = .port
  fields : p.fields.length = 3 ∧ p.fields.flatten.length = 6
  room : p.room = 2
  part : p.part.length < 2

/-- A version that is known stays. -/
theorem Parser.filled_VN (h : p.socks.VN ≠ 0) : (p.filled last).1.socks.VN = p.socks.VN := by
  have hreq : ∀ this fields, this.VN = p.socks.VN →
      (p.proceed last (requested this fields)).1.socks.VN = p.socks.VN := by
    intro this fields hv
    unfold requested found
    split_ifs <;> exact hv
  obtain ⟨this, phase, fields, part, room⟩ := p
  unfold Parser.filled
  cases phase with
  | header4 | length | ipv4 | name | ipv6 => rfl
  | port => exact hreq _ _ rfl
  | version =>
    simp only [next]
    split_ifs with h4 h5
    · exact absurd h4.1 h
    · exact absurd h5.1 h
    · rfl
    · rfl
  | userid | host | nmethods | methods | header5 =>
    simp only [next]
    split_ifs <;> first | rfl | exact hreq _ _ rfl

theorem Parser.Good.feed (h : p.Good) (b : UInt8) : (p.feed b).1.Good ∨ Stray (p.feed b).1 := by
  rw [Parser.feed]
  split
  · next hlt => exact .inl (h.part (by simpa using hlt))
  · next hlt =>
    by_cases hfull : p.part.length + [b].length = p.room
    · exact .inl (h.filled (List.cons_ne_nil b []) hfull)
    · have hname : p.phase = .name := by
        by_contra hn
        have := h.lt_room hn
        simp only [List.length_append, List.length_singleton] at hlt hfull
        omega
      obtain ⟨this, phase, fields, part, room⟩ := p
      dsimp only at hname
      subst hname
      obtain ⟨ha, ⟨v, r, hf⟩, -, n, rest, hp, hr, hn⟩ := h
      dsimp only at hf hp hr hlt hfull
      subst hf hp hr
      simp only [List.length_append, List.length_cons, List.length_nil] at hlt hfull
      obtain rfl : rest = [] := by
        rcases hn with hn | ⟨-, rfl⟩
        · omega
        · rfl
      exact .inr ⟨ha, rfl, ⟨rfl, rfl⟩, rfl, Nat.zero_lt_two⟩

theorem Stray.feed (h : Stray p) (b : UInt8) : (p.feed b).1.Good ∨ Stray (p.feed b).1 := by
  rw [Parser.feed]
  split
  · next hlt => exact .inr ⟨h.authorized, h.phase, h.fields, h.room, h.room ▸ hlt⟩
  · have h0 : p.socks.VN ≠ 0 := h.authorized.VN ▸ by decide
    rw [Parser.filled, h.phase]
    exact .inl (Parser.proceed_requested _ _ _ h0)

/-- With version 5 there is room for every field. -/
structure Spacious (m : Machine) : Prop where
  VN : m.parser.socks.VN = 5
  good : m.parser.Good ∨ Stray m.parser

theorem Spacious.fits {m : Machine} (h : Spacious m) : m.parser.Fits := by
  obtain ⟨h5, hg | hs⟩ := h
  · generalize m.parser = p at h5 hg
    obtain ⟨this, phase, fields, part, room⟩ := p
    dsimp only at h5
    cases phase with
    | userid =>
      obtain ⟨⟨header, hh, -⟩, -⟩ := hg
      exact absurd (h5.symm.trans hh.VN) (by decide)
    | host =>
      obtain ⟨⟨header, userid, hh, -⟩, -⟩ := hg
      exact absurd (h5.symm.trans hh.VN) (by decide)
    | _ => exact hg.fits (by rintro ⟨⟩) (by rintro ⟨⟩)
  · rw [Parser.Fits, hs.fields.1, hs.fields.2, hs.room]
    decide

theorem Spacious.feed {m : Machine} (h : Spacious m) (b : UInt8) : Spacious (m.feed b) := by
  unfold Machine.feed
  split
  · exact h
  · refine ⟨?_, h.good.elim (fun h => h.feed b) fun h => h.feed b⟩
    have h0 : m.parser.socks.VN ≠ 0 := h.VN ▸ by decide
    rw [Parser.feed]
    split
    · exact h.VN
    · exact (Parser.filled_VN h0).trans h.VN

theorem Spacious.run {m : Machine} (h : Spacious m) (bs : List UInt8) : Spacious (m.run bs) := by
  induction bs generalizing m with
  | nil => exact h
  | cons b bs ih => exact ih (h.feed b)

/-- All that a client of SOCKS5 sends fits. -/
theorem snug_five (ATYP : UInt8) (bs : List UInt8) : Snug ATYP ((5 :: bs).map some) := by
  refine snug_iff.mpr fun bs' hbs' => ?_
  rw [List.mem_inits] at hbs'
  cases bs' with
  | nil => simp [Machine.init, Parser.start, Parser.Fits, FRAME_SIZE, SIZEOF_VEC]
  | cons b bs' =>
    obtain ⟨rfl, -⟩ := List.cons_prefix_cons.mp hbs'
    have hgood : Parser.Good
        ⟨{ Socks.init ATYP with VN := 5 }, .nmethods, [[5]], [], 1⟩ :=
          ⟨⟨rfl, rfl, rfl⟩, rfl, rfl, rfl⟩
    have hfive : Spacious ((Machine.init ATYP).feed 5) := ⟨rfl, .inl hgood⟩
    exact (hfive.run bs').fits

end Room

/-- What comes in fits in a frame, as all that comes in with SOCKS5 does. -/
def Request.Fits (ATYP : UInt8) (rest : List UInt8) : Request → Prop
  | socks4 userid ip port => Snug ATYP (((socks4 userid ip port).bytes ++ rest).map some)
  | socks4a userid name mark port hm hn =>
    Snug ATYP (((socks4a userid name mark port hm hn).bytes ++ rest).map some)
  | _ => True

theorem Request.Fits.snug {ATYP : UInt8} {rest : List UInt8} {r : Request} (h : r.Fits ATYP rest) :
    Snug ATYP ((r.bytes ++ rest).map some) := by
  cases r with
  | socks4 | socks4a => exact h
  | ipv4 | domain | ipv6 => exact snug_five _ _

section Runs

variable {A : Answers} {ATYP : UInt8} {w : World Stream Session}

/-- In every run in which a request was received, the connect delegate is called with its
destination first exactly when the name fits in the buffer of the host and the address does not mark
a request of SOCKS4A. -/
theorem request_decoded_iff (r : Request) (rest : List UInt8) (h : Reaches A true ATYP w)
    (hf : r.Fits ATYP rest)
    (hin : inputs w.trace = (r.bytes ++ rest).map some) :
    (targets w.proto.calls).head? = some r.target ↔ r.Exact := by
  rw [h.targets_eq hf.snug ⟨_, [], (List.append_nil _).symm, hin, .inl rfl⟩]
  exact head_targets ATYP r rest

/-- A greeting with one method. -/
def hello : Hello := ⟨[0], by decide, by decide⟩

/-- A name of one letter. -/
theorem request_decoded_iff_domain : ∃ w, Reaches anyAnswer true 0 w ∧
    ((targets w.proto.calls).head? = some ('D', [97], 80) ↔
      Request.Exact (.domain hello ⟨[97], by decide⟩ 80 (by decide) (by decide))) := by
  obtain ⟨w, hw, hin⟩ := sends_observe anyAnswer (fun _ _ _ _ => true) (fun _ _ _ _ => trivial)
    [[5], [1], [0], [5], [1, 0, 3], [1], [97], [0, 80]] (fun _ _ => 0)
    (fun w => inputs w.trace) ([5, 1, 0, 5, 1, 0, 3, 1, 97, 0, 80].map some) (by decide +kernel)
  exact ⟨w, hw,
    request_decoded_iff (.domain hello ⟨[97], by decide⟩ 80 (by decide) (by decide)) [] hw
    trivial hin⟩

/-- A request for a name of 255 letters. -/
def long : Request :=
  .domain hello ⟨List.replicate 255 97, fun h => absurd (List.eq_of_mem_replicate h) (by decide)⟩ 80
    (List.cons_ne_nil _ _) (List.length_replicate.trans_lt (by decide))

/-- The name of 255 letters loses the last one. -/
theorem not_request_decoded_long : ¬∀ (r : Request) (A : Answers) (ATYP : UInt8) (rest : List UInt8)
    (w : World Stream Session), Reaches A true ATYP w → r.Fits ATYP rest →
      inputs w.trace = (r.bytes ++ rest).map some →
        (targets w.proto.calls).head? = some r.target := by
  intro h
  obtain ⟨w, hw, hb⟩ := sends_observe anyAnswer (fun _ _ _ _ => true) (fun _ _ _ _ => trivial)
    [[5], [1], [0], [5], [1, 0, 3], [255], List.replicate 255 97, [0, 80]] (fun _ _ => 0)
    (fun w => (inputs w.trace, decide ((targets w.proto.calls).head? = some long.target)))
    ((long.bytes ++ []).map some, false) (by decide +kernel)
  obtain ⟨hin, ht⟩ := Prod.mk.inj hb
  exact of_decide_eq_false ht (h long anyAnswer 0 [] w hw trivial hin)

end Runs

end Socks

end FrameTransporter
