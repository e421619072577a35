import FrameTransporter.Basic
import FrameTransporter.Intrusive.Buckets
import Mathlib.Data.Finmap

/-! # The map of IP addresses

A table of buckets, each of which heads a list of entries. The table is allocated
with the first entry and freed with the last one. The entries of both address
families are in the same lists.
-/

namespace FrameTransporter.IpHashMap

open Intrusive

/-- A number stored into an `int`. -/
def int (z : ℤ) : ℤ := Int.bmod z (2 ^ 32)

abbrev EntryId := ℕ

/-- What a `void *` points to. -/
abbrev Data := ℕ

/-- An address with its family. -/
inductive Addr
  | ip4 (s_addr : UInt32)
  | ip6 (s6_addr : Vector UInt8 16)
  deriving DecidableEq

/-- `AF_INET`. -/
def AF_INET : ℕ := 2

/-- `AF_INET6`. -/
def AF_INET6 : ℕ := 10

/-- `ft_iphashmap_hash_ip4`. -/
def hashIp4 (s_addr : UInt32) : ℕ :=
  let x1 := s_addr.toNat &&& 0xFFFF
  let x2 := (s_addr.toNat >>> 16) &&& 0xFFFF
  AF_INET ^^^ x1 ^^^ x2

/-- `ft_iphashmap_hash_ip6`. -/
def hashIp6 (s6_addr : Vector UInt8 16) : ℕ :=
  let x1 := (s6_addr[0].toNat <<< 8) ||| s6_addr[1].toNat
  let x2 := (s6_addr[2].toNat <<< 8) ||| s6_addr[3].toNat
  let x3 := (s6_addr[4].toNat <<< 8) ||| s6_addr[5].toNat
  let x4 := (s6_addr[6].toNat <<< 8) ||| s6_addr[7].toNat
  let x5 := (s6_addr[8].toNat <<< 8) ||| s6_addr[9].toNat
  let x6 := (s6_addr[10].toNat <<< 8) ||| s6_addr[11].toNat
  let x7 := (s6_addr[12].toNat <<< 8) ||| s6_addr[13].toNat
  let x8 := (s6_addr[14].toNat <<< 8) ||| s6_addr[15].toNat
  AF_INET6 ^^^ x1 ^^^ x2 ^^^ x3 ^^^ x4 ^^^ x5 ^^^ x6 ^^^ x7 ^^^ x8

namespace Addr

def hash : Addr → ℕ
  | ip4 s_addr => hashIp4 s_addr
  | ip6 s6_addr => hashIp6 s6_addr

/-- The comparison of the family and then of the address, which all three walks make. -/
def eq : Addr → Addr → Bool
  | ip4 a, ip4 b => a = b
  | ip6 a, ip6 b => a = b
  | _, _ => false

theorem eq_iff {a b : Addr} : a.eq b = true ↔ a = b := by
  cases a <;> cases b <;> simp [eq]

end Addr

/-- `struct ft_iphashmap_entry`. -/
structure Entry where
  next : Option EntryId
  addr : Addr
  data : Data

/-- `struct ft_iphashmap`, with the entries in memory and the addresses of those that were
allocated and not freed. -/
structure Table where
  bucketSize : ℕ
  count : ℤ
  buckets : Option (ℕ → Option EntryId)
  entries : EntryId → Entry
  allocated : List EntryId

/-- What `malloc` returns: an address and what the memory there contains. -/
structure Malloc where
  entry : EntryId
  data : Data

/-- `ft_iphashmap_init`. -/
def init (bucketSize : ℕ) (entries : EntryId → Entry) : Table where
  bucketSize := bucketSize
  count := 0
  buckets := none
  entries := entries
  allocated := []

namespace Table

variable (w : Table)

/-- The link stored in an entry. -/
def next (e : EntryId) : Option EntryId := (w.entries e).next

/-- The heads of the buckets, all of them null before the table is allocated. -/
def heads : ℕ → Option EntryId := w.buckets.getD fun _ => none

/-- The bucket that the hash of an address selects. -/
def index (addr : Addr) : ℕ := addr.hash % w.bucketSize

/-- The loops of add and pop, up to the first entry with an address or to the end. A chain
has at most as many entries as are allocated. -/
def seek (addr : Addr) : Option (Link EntryId) :=
  Link.head.seek (fun e => (w.entries e).addr.eq addr) w.next (w.heads (w.index addr))
    (w.allocated.length + 1)

/-- What a link of the bucket `i` points to. -/
def deref (i : ℕ) (link : Link EntryId) : Option EntryId := link.deref w.next (w.heads i)

def setEntry (e : EntryId) (x : Entry) : Table :=
  { w with entries := Function.update w.entries e x }

/-- Store through a link of the bucket `i`. -/
def assign (i : ℕ) (link : Link EntryId) (q : Option EntryId) : Table :=
  match link with
  | .head => { w with buckets := some (Function.update w.heads i q) }
  | .next l => w.setEntry l { w.entries l with next := q }

/-- `ft_iphashmap_add_int_`, with the result of `malloc`, which is used if the address is new.
An address that is in use already is none that `malloc` returns. -/
def addInt (addr : Addr) (m : Malloc) : Except Fault (EntryId × Table) :=
  -- lazy allocation
  let w := { w with buckets := some w.heads }
  match w.seek addr with
  | none => .error .misuse
  | some link =>
    match w.deref (w.index addr) link with
    | some bucket => .ok (bucket, w)
    | none =>
      if m.entry ∈ w.allocated then .error .misuse
      else
        let w := { w.setEntry m.entry ⟨none, addr, m.data⟩ with
          allocated := m.entry :: w.allocated }
        let w := w.assign (w.index addr) link (some m.entry)
        .ok (m.entry, { w with count := int (w.count + 1) })

/-- `ft_iphashmap_get`. -/
def get (addr : Addr) : Except Fault (Option EntryId) :=
  match w.buckets with
  | none => .ok none
  | some buckets =>
    match find (fun e => (w.entries e).addr.eq addr) w.next (w.allocated.length + 1)
      (buckets (w.index addr)) with
    | none => .error .misuse
    | some bucket => .ok bucket

/-- `ft_iphashmap_pop_int_`, with the data that it stores, or null if it returns false. -/
def popInt (addr : Addr) : Except Fault (Option Data × Table) :=
  match w.buckets with
  | none => .ok (none, w)
  | some _ =>
    match w.seek addr with
    | none => .error .misuse
    | some link =>
      match w.deref (w.index addr) link with
      | none => .ok (none, w)
      | some e =>
        let bucket := w.entries e
        let w := w.assign (w.index addr) link bucket.next
        let w : Table := { w with allocated := w.allocated.erase e }
        if w.count ≤ 0 then .error (.abort .countPositive)
        else
          let count := w.count - 1
          .ok (some bucket.data,
            { w with count, buckets := if count = 0 then none else w.buckets })

/-- `ft_iphashmap_clear`. The entries stay allocated. -/
def clear : Table := { w with count := 0, buckets := none }

/-- `ft_iphashmap_add_ip4`. -/
def addIp4 (addr : UInt32) (m : Malloc) : Except Fault (EntryId × Table) := w.addInt (.ip4 addr) m

/-- `ft_iphashmap_add_ip6`. -/
def addIp6 (addr : Vector UInt8 16) (m : Malloc) : Except Fault (EntryId × Table) :=
  w.addInt (.ip6 addr) m

/-- `ft_iphashmap_get_ip4`. -/
def getIp4 (addr : UInt32) : Except Fault (Option EntryId) := w.get (.ip4 addr)

/-- `ft_iphashmap_get_ip6`. -/
def getIp6 (addr : Vector UInt8 16) : Except Fault (Option EntryId) := w.get (.ip6 addr)

/-- `ft_iphashmap_pop_ip4`. -/
def popIp4 (addr : UInt32) : Except Fault (Option Data × Table) := w.popInt (.ip4 addr)

/-- `ft_iphashmap_pop_ip6`. -/
def popIp6 (addr : Vector UInt8 16) : Except Fault (Option Data × Table) := w.popInt (.ip6 addr)

end Table

/-- A socket address. -/
inductive Sockaddr
  | sockaddrIn (sin_addr : UInt32)
  | sockaddrIn6 (sin6_addr : Vector UInt8 16)
  | other (sa_family : ℕ)

/-- `ft_iphashmap_get_sa`. -/
def Table.getSa (w : Table) : Option Sockaddr → Except Fault (Option EntryId)
  | none => .ok none
  | some (.sockaddrIn sin_addr) => w.getIp4 sin_addr
  | some (.sockaddrIn6 sin6_addr) => w.getIp6 sin6_addr
  | some (.other _) => .ok none

end FrameTransporter.IpHashMap
