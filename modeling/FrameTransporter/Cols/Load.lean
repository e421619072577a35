import FrameTransporter.Cols.FiniteMap
import FrameTransporter.LoadStore
import FrameTransporter.Texts.Lines
import Mathlib.Data.List.DropRight

/-! # Loading a file of addresses

The file is read into a buffer of 256 bytes, line by line. A line of more than 255 bytes
comes in blocks, each of which is taken for a line, and an address is counted each time
it occurs.
-/

namespace FrameTransporter.IpHashMap

open Texts

/-- `AF_UNSPEC`. -/
def AF_UNSPEC : ℕ := 0

/-- `inet_pton` of both families. There are dots in the notation of the one and no colons, and
colons in the notation of the other. -/
structure InetPton where
  ip4 : List UInt8 → Option UInt32
  ip6 : List UInt8 → Option (Vector UInt8 16)
  ip4_dot : ∀ {src a}, ip4 src = some a → 46 ∈ src
  ip4_colon : ∀ {src a}, ip4 src = some a → 58 ∉ src
  ip6_colon : ∀ {src a}, ip6 src = some a → 58 ∈ src

/-- `malloc`, which always has room for an entry. -/
structure Allocator where
  malloc : Table → Malloc
  fresh : ∀ w, (malloc w).entry ∉ w.allocated

/-- `isspace`. -/
def isspace (c : UInt8) : Bool := c = 32 || (9 ≤ c && c ≤ 13)

/-- `ft_iphashmap_trim_whitespace`. -/
def trimWhitespace (str : List UInt8) : List UInt8 := (str.dropWhile isspace).rdropWhile isspace

/-- The results of `fgets` with a buffer of some size. -/
def fgets (size : ℕ) (text : List UInt8) : List (List UInt8) := getLines 10 (size - 1) text

namespace Table

variable (pton : InetPton) (alloc : Allocator) (w : Table)

/-- `ft_iphashmap_add` with a family. -/
def addFamily (family : ℕ) (src : List UInt8) : Except Fault (Option EntryId × Table) :=
  if family = AF_INET then
    match pton.ip4 src with
    | none => .ok (none, w)
    | some addr => (w.addIp4 addr (alloc.malloc w)).map fun r => (some r.1, r.2)
  else if family = AF_INET6 then
    match pton.ip6 src with
    | none => .ok (none, w)
    | some addr => (w.addIp6 addr (alloc.malloc w)).map fun r => (some r.1, r.2)
  else .ok (none, w)

/-- `ft_iphashmap_add`, which detects the family if it is not given. -/
def add (family : ℕ) (src : List UInt8) : Except Fault (Option EntryId × Table) :=
  if family = AF_UNSPEC then
    if 58 ∈ src then w.addFamily pton alloc AF_INET6 src
    else if 46 ∈ src then w.addFamily pton alloc AF_INET src
    else .ok (none, w)
  else w.addFamily pton alloc family src

/-- The loop of `ft_iphashmap_load` over the lines that `fgets` returns. -/
def loadLoop : List (List UInt8) → ℤ → Table → Except Fault (ℤ × Table)
  | [], count, w => .ok (count, w)
  | line :: lines, count, w =>
    let c := trimWhitespace (cString line)
    if c = [] then loadLoop lines count w
    else if c.head? = some 35 then loadLoop lines count w
    else if c.head? = some 59 then loadLoop lines count w
    else do
      let (e, w) ← w.add pton alloc AF_UNSPEC c
      if e = none then loadLoop lines count w else loadLoop lines (count + 1) w

/-- `ft_iphashmap_load`, with the text of the file, if it can be opened. An `ssize_t` can tell the
number of lines of any file. -/
def load (file : Option (List UInt8)) : Except Fault (ℤ × Table) :=
  match file with
  | none => .ok (-1, w)
  | some text => loadLoop pton alloc (fgets 256 text) 0 w

/-- The addresses that a search finds. -/
def keys (w : Table) : Set Addr := { a | ∃ e, w.get a = .ok (some e) }

/-- A table with buckets and without entries. -/
structure Empty (w : Table) : Prop where
  buckets : 0 < w.bucketSize
  heads : ∀ i, w.heads i = none
  count : w.count = 0

end Table

/-- The address that a string is in one of the notations. -/
def InetPton.parse (pton : InetPton) (src : List UInt8) : Option Addr :=
  ((pton.ip4 src).map .ip4).or ((pton.ip6 src).map .ip6)

/-- The address of a line: what is left of it without the spaces around it, if that is neither
empty nor a comment. -/
def InetPton.address (pton : InetPton) (line : List UInt8) : Option Addr :=
  let c := trimWhitespace line
  if c = [] ∨ c.head? = some 35 ∨ c.head? = some 59 then none else pton.parse c

/-- The text between line ends. -/
def textLines (text : List UInt8) : List (List UInt8) := text.splitOn 10

/-- The addresses that are read from a text, in their order. -/
def InetPton.addresses (pton : InetPton) (text : List UInt8) : List Addr :=
  ((textLines text).flatMap (blocks 255)).filterMap pton.address

section Lines

variable {pton : InetPton} {line text : List UInt8} {a : Addr}

theorem trimWhitespace_nil : trimWhitespace [] = [] := rfl

/-- The end of a line is a space. -/
theorem trimWhitespace_newline (line : List UInt8) :
    trimWhitespace (line ++ [10]) = trimWhitespace line := by
  have hspace : isspace 10 = true := by decide
  rw [trimWhitespace, List.dropWhile_append]
  split
  · next h =>
    rw [List.isEmpty_iff] at h
    rw [trimWhitespace, h, List.dropWhile_cons_of_pos hspace]
    rfl
  · rw [List.rdropWhile_concat_pos _ _ _ hspace, trimWhitespace]

theorem cString_of_not_mem (h : 0 ∉ line) : cString line = line := by
  rw [cString, List.takeWhile_eq_self_iff]
  intro b hb
  simpa using fun he : b = 0 => h (he ▸ hb)

theorem address_nil : pton.address [] = none := by simp [InetPton.address, trimWhitespace_nil]

theorem address_newline : pton.address (line ++ [10]) = pton.address line := by
  rw [InetPton.address, trimWhitespace_newline, InetPton.address]

/-- A line that fits into the buffer is one block. -/
theorem address_blocks (h : line.length ≤ 255) :
    (∃ b ∈ blocks 255 line, pton.address b = some a) ↔ pton.address line = some a := by
  by_cases hnil : line = []
  · subst hnil
    simp [address_nil]
  · rw [blocks_of_le (by decide) hnil h]
    simp

/-- The lines that `fgets` returns have the addresses of the blocks. -/
theorem filterMap_fgets (pton : InetPton) (text : List UInt8) :
    (fgets 256 text).filterMap pton.address = pton.addresses text := by
  have hflat : ∀ ls : List (List UInt8),
      ls.filterMap pton.address = ls.flatMap fun l => (pton.address l).toList := fun ls =>
    List.filterMap_eq_flatMap_toList pton.address ls
  rw [InetPton.addresses, hflat, hflat, List.flatMap_assoc]
  refine flatMap_getLines (fun l => (pton.address l).toList) (by decide) ?_ (fun p => ?_) text
  · rw [address_nil, Option.toList_none]
  · rw [address_newline]

end Lines

namespace Table

variable {w w' : Table} {m : Map} {a : Addr} {malloc : Malloc}

/-- The lists of the table hold the entries of a finite map, which the count tells. -/
structure Keyed (w : Table) (m : Map) : Prop where
  chained : ∃ xs, w.Chained xs m
  count : w.count = int m.keys.card

theorem Empty.keyed (h : w.Empty) : w.Keyed ∅ where
  chained := by
    have hheads : w.heads = fun _ => none := funext h.heads
    refine ⟨fun _ => [], hheads ▸ Intrusive.buckets_nil, nofun, nofun, ?_, nofun, nofun⟩
    exact fun a ha => absurd ha Finmap.notMem_empty
  count := by
    rw [h.count, Finmap.keys_empty, Finset.card_empty]
    decide

theorem Keyed.mem_keys (h : w.Keyed m) : a ∈ w.keys ↔ a ∈ m := by
  obtain ⟨xs, hc⟩ := h.chained
  constructor
  · rintro ⟨e, he⟩
    by_contra ha
    rw [hc.get_none ha] at he
    cases he
  · intro ha
    obtain ⟨ys, e, zs, hx, hea⟩ := hc.exists_split ha
    exact ⟨e, hc.get_some hx hea⟩

/-- Adding an address makes it a key. -/
theorem Keyed.addInt (h : w.Keyed m) (a : Addr) (hf : malloc.entry ∉ w.allocated) :
    ∃ e w' m', w.addInt a malloc = .ok (e, w') ∧ w'.Keyed m' ∧ m'.keys = insert a m.keys := by
  obtain ⟨xs, hc⟩ := h.chained
  have hlazy : Chained { w with buckets := some w.heads } xs m := hc.congr rfl rfl rfl rfl rfl rfl
  by_cases ha : a ∈ m
  · obtain ⟨ys, e, zs, hx, hea⟩ := hc.exists_split ha
    refine ⟨e, _, m, hc.addInt_of_mem hx hea malloc, ⟨⟨xs, hlazy⟩, h.count⟩, ?_⟩
    rw [Finset.insert_eq_of_mem (Finmap.mem_keys.mpr ha)]
  · refine ⟨_, _, _, hc.addInt_of_notMem ha hf, ⟨⟨_, hlazy.added ha hf⟩, ?_⟩, keys_insert_eq⟩
    rw [count_added, keys_insert ha, Int.natCast_succ, ← int_add_one m.keys.card]
    change int (w.count + 1) = _
    rw [h.count]

variable {pton : InetPton} {alloc : Allocator}

/-- The family that is detected is that of the notation. -/
theorem add_unspec (w : Table) (src : List UInt8) : w.add pton alloc AF_UNSPEC src =
    match pton.parse src with
    | none => .ok (none, w)
    | some a => (w.addInt a (alloc.malloc w)).map fun r => (some r.1, r.2) := by
  have h6 : AF_INET6 ≠ AF_INET := by decide
  rw [add, if_pos rfl, InetPton.parse]
  by_cases hcolon : 58 ∈ src
  · have h4 : pton.ip4 src = none :=
      Option.eq_none_iff_forall_ne_some.mpr fun a ha => pton.ip4_colon ha hcolon
    rw [if_pos hcolon, addFamily, if_neg h6, if_pos rfl, h4]
    cases pton.ip6 src <;> rfl
  · have hnone : pton.ip6 src = none :=
      Option.eq_none_iff_forall_ne_some.mpr fun a ha => hcolon (pton.ip6_colon ha)
    rw [if_neg hcolon, hnone]
    by_cases hdot : 46 ∈ src
    · rw [if_pos hdot, addFamily, if_pos rfl]
      cases pton.ip4 src <;> rfl
    · have h4 : pton.ip4 src = none :=
        Option.eq_none_iff_forall_ne_some.mpr fun a ha => hdot (pton.ip4_dot ha)
      rw [if_neg hdot, h4]
      rfl

/-- Each line with an address is counted and makes the address a key. -/
theorem Keyed.loadLoop (h : w.Keyed m) (pton : InetPton) (alloc : Allocator)
    (lines : List (List UInt8)) (h0 : ∀ l ∈ lines, 0 ∉ l) (count : ℤ) :
    ∃ w' m', loadLoop pton alloc lines count w =
        .ok (count + (lines.filterMap pton.address).length, w') ∧ w'.Keyed m' ∧
      m'.keys = m.keys ∪ (lines.filterMap pton.address).toFinset := by
  induction lines generalizing w m count with
  | nil => exact ⟨w, m, by simp [Table.loadLoop], h, by simp⟩
  | cons line lines ih =>
    have ih := fun {w m} (h : Keyed w m) => ih h fun l hl => h0 l (List.mem_cons_of_mem _ hl)
    rw [Table.loadLoop, cString_of_not_mem (h0 line List.mem_cons_self), List.filterMap_cons,
      InetPton.address]
    dsimp only
    by_cases hnil : trimWhitespace line = []
    · rw [if_pos hnil, if_pos (.inl hnil)]
      exact ih h count
    by_cases hhash : (trimWhitespace line).head? = some 35
    · rw [if_neg hnil, if_pos hhash, if_pos (.inr (.inl hhash))]
      exact ih h count
    by_cases hsemi : (trimWhitespace line).head? = some 59
    · rw [if_neg hnil, if_neg hhash, if_pos hsemi, if_pos (.inr (.inr hsemi))]
      exact ih h count
    rw [if_neg hnil, if_neg hhash, if_neg hsemi, if_neg (by simp [hnil, hhash, hsemi]), add_unspec]
    cases pton.parse (trimWhitespace line) with
    | none => exact ih h count
    | some a =>
      obtain ⟨e, w₁, m₁, hadd, h₁, hkeys₁⟩ := h.addInt a (alloc.fresh w)
      obtain ⟨w₂, m₂, hload, h₂, hkeys₂⟩ := ih h₁ (count + 1)
      refine ⟨w₂, m₂, ?_, h₂, ?_⟩
      · have hlen : count + ((a :: lines.filterMap pton.address).length : ℤ) =
            count + 1 + (lines.filterMap pton.address).length := by
          rw [List.length_cons]
          omega
        dsimp only
        rw [hadd, hlen]
        exact hload
      · rw [hkeys₂, hkeys₁, List.toFinset_cons, Finset.insert_union, Finset.union_insert]

end Table

/-- What a text has to be like for loading to yield the addresses of its lines, each counted
once: no block of a line that does not fit into the buffer has an address that is in no line, the
address of such a line is that of a block, and no address is read twice. -/
structure InetPton.Loadable (pton : InetPton) (text : List UInt8) : Prop where
  blocks : ∀ line ∈ textLines text, 255 < line.length → ∀ b ∈ blocks 255 line, ∀ a,
    pton.address b = some a → ∃ l ∈ textLines text, pton.address l = some a
  whole : ∀ line ∈ textLines text, 255 < line.length → ∀ a, pton.address line = some a →
    a ∈ pton.addresses text
  once : (pton.addresses text).Nodup
  few : (pton.addresses text).length < 2 ^ 31

section Loads

variable {pton : InetPton} {alloc : Allocator} {w : Table} {text : List UInt8} {a : Addr}

theorem mem_addresses : a ∈ pton.addresses text ↔
    ∃ line ∈ textLines text, ∃ b ∈ blocks 255 line, pton.address b = some a := by
  simp only [InetPton.addresses, List.mem_filterMap, List.mem_flatMap]
  constructor
  · rintro ⟨b, ⟨line, hl, hb⟩, ha⟩
    exact ⟨line, hl, b, hb, ha⟩
  · rintro ⟨line, hl, b, hb, ha⟩
    exact ⟨b, ⟨line, hl, hb⟩, ha⟩

/-- The addresses that are read are those of the lines, apart from the lines that do not fit. -/
theorem addresses_iff : (∀ a, a ∈ pton.addresses text ↔
      ∃ line ∈ textLines text, pton.address line = some a) ↔
    (∀ line ∈ textLines text, 255 < line.length → ∀ b ∈ blocks 255 line, ∀ a,
      pton.address b = some a → ∃ l ∈ textLines text, pton.address l = some a) ∧
    ∀ line ∈ textLines text, 255 < line.length → ∀ a, pton.address line = some a →
      a ∈ pton.addresses text := by
  constructor
  · intro h
    refine ⟨fun line hl _ b hb a ha => ?_, fun line hl _ a ha => (h a).mpr ⟨line, hl, ha⟩⟩
    exact (h a).mp (mem_addresses.mpr ⟨line, hl, b, hb, ha⟩)
  · rintro ⟨hblocks, hwhole⟩ a
    constructor
    · intro ha
      obtain ⟨line, hl, b, hb, ha⟩ := mem_addresses.mp ha
      by_cases hlen : line.length ≤ 255
      · exact ⟨line, hl, (address_blocks hlen).mp ⟨b, hb, ha⟩⟩
      · exact hblocks line hl (by omega) b hb a ha
    · rintro ⟨line, hl, ha⟩
      by_cases hlen : line.length ≤ 255
      · exact mem_addresses.mpr ⟨line, hl, (address_blocks hlen).mpr ha⟩
      · exact hwhole line hl (by omega) a ha

/-- Addresses are counted as often as they are read, keys once and by an `int`. -/
theorem length_eq_int_card (as : List Addr) :
    (as.length : ℤ) = int as.toFinset.card ↔ as.Nodup ∧ as.length < 2 ^ 31 := by
  have hle : as.toFinset.card ≤ as.length := as.toFinset_card_le
  constructor
  · intro h
    have hint : as.toFinset.card < 2 ^ 31 := by
      by_contra hbig
      have hlt : int as.toFinset.card < 2 ^ 31 := Int.bmod_lt (by decide)
      omega
    have hcard : int as.toFinset.card = as.toFinset.card := by
      refine Int.bmod_eq_of_le ?_ ?_ <;> omega
    rw [hcard] at h
    have heq : as.toFinset.card = as.length := by omega
    exact ⟨Multiset.toFinset_card_eq_card_iff_nodup.mp heq, by omega⟩
  · rintro ⟨hnodup, hlen⟩
    rw [List.toFinset_card_of_nodup hnodup]
    refine (Int.bmod_eq_of_le ?_ ?_).symm <;> omega

/-- Loading into an empty map always succeeds, with the addresses that are read as keys. -/
theorem load_eq (pton : InetPton) (alloc : Allocator) (hw : w.Empty) (h0 : 0 ∉ text) : ∃ w',
    w.load pton alloc (some text) = .ok ((pton.addresses text).length, w') ∧
      w'.keys = { a | a ∈ pton.addresses text } ∧
      w'.count = int (pton.addresses text).toFinset.card := by
  have hlines : ∀ l ∈ fgets 256 text, 0 ∉ l := fun l hl hz => h0 (mem_getLines hl hz)
  obtain ⟨w', m', hload, hkeyed, hkeys⟩ := hw.keyed.loadLoop pton alloc (fgets 256 text) hlines 0
  rw [filterMap_fgets, Finmap.keys_empty, Finset.empty_union] at hkeys
  rw [filterMap_fgets, zero_add] at hload
  refine ⟨w', hload, ?_, ?_⟩
  · ext a
    rw [hkeyed.mem_keys, ← Finmap.mem_keys, hkeys, List.mem_toFinset, Set.mem_ofPred_eq]
  · rw [hkeyed.count, hkeys]

/-- Loading yields the addresses of the lines and their number exactly for texts of that kind. -/
theorem loads_iff (pton : InetPton) (alloc : Allocator) (hw : w.Empty) (h0 : 0 ∉ text) :
    (∃ count w', w.load pton alloc (some text) = .ok (count, w') ∧
      w'.keys = { a | ∃ line ∈ textLines text, pton.address line = some a } ∧
      count = w'.count) ↔ pton.Loadable text := by
  obtain ⟨w', hload, hkeys, hcount⟩ := load_eq pton alloc hw h0
  constructor
  · rintro ⟨count, _, hl, hk, hc⟩
    rw [hload] at hl
    cases hl
    rw [hkeys, Set.ext_iff] at hk
    rw [hcount, length_eq_int_card] at hc
    obtain ⟨hblocks, hwhole⟩ := addresses_iff.mp hk
    exact ⟨hblocks, hwhole, hc.1, hc.2⟩
  · intro h
    refine ⟨_, w', hload, ?_, ?_⟩
    · rw [hkeys]
      exact Set.ext (addresses_iff.mpr ⟨h.blocks, h.whole⟩)
    · rw [hcount, length_eq_int_card]
      exact ⟨h.once, h.few⟩

end Loads

section Examples

/-- The text `10.0.0.1`. -/
def ten : List UInt8 := [49, 48, 46, 48, 46, 48, 46, 49]

/-- The text `::1`. -/
def loopback : List UInt8 := [58, 58, 49]

/-- `inet_pton` where it is asked for `10.0.0.1` and `::1` only. -/
def tenPton : InetPton where
  ip4 src := if src = ten then some 0x0100000A else none
  ip6 src := if src = loopback then some ⟨#[0, 0, 0, 0, 0, 0, 0, 0, 0, 0, 0, 0, 0, 0, 0, 1], rfl⟩
    else none
  ip4_dot := by
    intro src a h
    rw [Option.ite_none_right_eq_some] at h
    rw [h.1]
    decide
  ip4_colon := by
    intro src a h
    rw [Option.ite_none_right_eq_some] at h
    rw [h.1]
    decide
  ip6_colon := by
    intro src a h
    rw [Option.ite_none_right_eq_some] at h
    rw [h.1]
    decide

/-- The entries are allocated one behind the other. -/
def bump : Allocator where
  malloc w := ⟨w.allocated.foldr max 0 + 1, 0⟩
  fresh w hmem := by
    have hle : ∀ (es : List EntryId), ∀ e ∈ es, e ≤ es.foldr max 0 := fun es e he => by
      induction es with
      | nil => cases he
      | cons a es ih =>
        rcases List.mem_cons.mp he with rfl | he
        · exact Nat.le_max_left _ _
        · exact (ih he).trans (Nat.le_max_right _ _)
    exact absurd (hle _ _ hmem) (Nat.not_succ_le_self _)

theorem empty_init : (init 4 fun _ => ⟨none, .ip4 0, 0⟩).Empty := ⟨by decide, fun _ => rfl, rfl⟩

/-- A file with the line `10.0.0.1` several times. -/
def tens (n : ℕ) : List UInt8 := (List.replicate n (ten ++ [10])).flatten

theorem addresses_tens (n : ℕ) :
    tenPton.addresses (tens n) = List.replicate n (.ip4 0x0100000A) := by
  have hten : (10 : UInt8) ∉ ten := by decide
  have haddress : tenPton.address ten = some (.ip4 0x0100000A) := by decide
  have hlines : textLines (tens n) = List.replicate n ten ++ [[]] := by
    induction n with
    | zero => rfl
    | succ n ih =>
      rw [tens, List.replicate_succ, List.flatten_cons, textLines, List.append_assoc,
        List.singleton_append, List.splitOn_append_cons_self_of_not_mem hten]
      exact congrArg (ten :: ·) ih
  have hblocks : blocks 255 ten = [ten] := blocks_of_le (by decide) (by decide) (by decide)
  rw [InetPton.addresses, hlines]
  clear hlines
  induction n with
  | zero => rw [List.replicate_zero, List.nil_append, List.flatMap_singleton, blocks_nil]; rfl
  | succ n ih =>
    rw [List.replicate_succ, List.cons_append, List.flatMap_cons, hblocks, List.filterMap_append,
      ih, List.replicate_succ]
    simp [haddress]

/-- A file with a comment, `10.0.0.1`, an empty line and `::1` with spaces around it. -/
def hosts : List UInt8 :=
  [35, 32, 49, 10] ++ ten ++ [10, 10, 32] ++ loopback ++ [32, 10]

theorem addresses_hosts : tenPton.addresses hosts =
    [.ip4 0x0100000A, .ip6 ⟨#[0, 0, 0, 0, 0, 0, 0, 0, 0, 0, 0, 0, 0, 0, 0, 1], rfl⟩] := by
  have hlines : textLines hosts = [[35, 32, 49], ten, [], [32] ++ loopback ++ [32], []] := by decide
  have hblocks {line : List UInt8} (hne : line ≠ []) (hlen : line.length ≤ 255) :
      blocks 255 line = [line] := blocks_of_le (by decide) hne hlen
  rw [InetPton.addresses, hlines]
  simp only [List.flatMap_cons, List.flatMap_nil, blocks_nil]
  rw [hblocks (by decide) (by decide), hblocks (by decide) (by decide),
    hblocks (by decide) (by decide)]
  decide

/-- Two addresses are loaded. -/
theorem loads_iff_hosts : ∃ count w',
    (init 4 fun _ => ⟨none, .ip4 0, 0⟩).load tenPton bump (some hosts) = .ok (count, w') ∧
      w'.keys = { a | ∃ line ∈ textLines hosts, tenPton.address line = some a } ∧
      count = w'.count := by
  have hshort : ∀ line ∈ textLines hosts, ¬255 < line.length := by decide
  refine (loads_iff tenPton bump empty_init (by decide)).mpr ⟨?_, ?_, ?_, ?_⟩
  · exact fun line hl hlen => absurd hlen (hshort line hl)
  · exact fun line hl hlen => absurd hlen (hshort line hl)
  · rw [addresses_hosts]
    decide
  · rw [addresses_hosts]
    decide

/-- An address that is there twice is counted twice. -/
theorem not_loads_twice : ¬∀ (pton : InetPton) (alloc : Allocator) (w : Table) (text : List UInt8),
    w.Empty → 0 ∉ text → ∃ count w', w.load pton alloc (some text) = .ok (count, w') ∧
      w'.keys = { a | ∃ line ∈ textLines text, pton.address line = some a } ∧
      count = w'.count := by
  intro h
  have h0 : 0 ∉ tens 2 := by decide
  obtain ⟨count, _, hl, -, hc⟩ := h tenPton bump _ (tens 2) empty_init h0
  obtain ⟨w', hload, -, hcount⟩ := load_eq tenPton bump empty_init h0
  rw [hload] at hl
  cases hl
  rw [hcount, length_eq_int_card, addresses_tens] at hc
  exact absurd hc.1 (by decide)

end Examples

end FrameTransporter.IpHashMap
