import FrameTransporter.Cols.IpHashMap

/-! # The map of IP addresses as a finite map

The lists of the buckets hold one entry for each address of a finite map, each in the
bucket that its hash selects. Every operation on the table does what the operation on
the finite map does.
-/

namespace FrameTransporter.IpHashMap

open Intrusive

/-- What the table is for: data by address. -/
abbrev Map := Finmap fun _ : Addr => Data

/-- The operations that change the table. Data is stored through the entry that a search for
the address yields. -/
inductive Op
  | add (addr : Addr) (m : Malloc)
  | store (addr : Addr) (data : Data)
  | pop (addr : Addr)
  | clear

def Op.exec (w : Table) : Op → Except Fault Table
  | add addr m => (w.addInt addr m).map Prod.snd
  | store addr data => (w.get addr).map fun r =>
      match r with
      | none => w
      | some e => w.setEntry e { w.entries e with data }
  | pop addr => (w.popInt addr).map Prod.snd
  | clear => .ok w.clear

/-- What an operation does to the finite map. The data of a new entry is what the memory
contained. -/
def Op.spec (m : Map) : Op → Map
  | add addr malloc => if addr ∈ m then m else m.insert addr malloc.data
  | store addr data => if addr ∈ m then m.insert addr data else m
  | pop addr => m.erase addr
  | clear => ∅

/-- The address that `malloc` returns is not in use. -/
def Op.Mallocs (w : Table) (m : Map) : Op → Prop
  | add addr malloc => addr ∉ m → malloc.entry ∉ w.allocated
  | _ => True

/-- The count can tell one key more. -/
def Op.Room (m : Map) : Op → Prop
  | add addr _ => addr ∉ m → m.keys.card < 2 ^ 31 - 1
  | _ => True

section Maps

variable {m : Map} {a : Addr} {d : Data}

theorem keys_insert_eq : (m.insert a d).keys = insert a m.keys := by
  ext b
  simp [Finmap.mem_keys]

theorem keys_insert (ha : a ∉ m) : (m.insert a d).keys.card = m.keys.card + 1 := by
  rw [keys_insert_eq, Finset.card_insert_of_notMem (by rwa [Finmap.mem_keys])]

theorem keys_store (ha : a ∈ m) : (m.insert a d).keys = m.keys := by
  ext b
  rw [Finmap.mem_keys, Finmap.mem_keys, Finmap.mem_insert]
  exact ⟨fun hb => hb.elim (fun hb => hb ▸ ha) id, .inr⟩

theorem erase_eq (ha : a ∉ m) : m.erase a = m := by
  apply Finmap.ext_lookup
  intro b
  by_cases hb : b = a
  · subst hb
    rw [Finmap.lookup_erase, Finmap.lookup_eq_none.mpr ha]
  · exact Finmap.lookup_erase_ne hb

theorem keys_erase (ha : a ∈ m) : (m.erase a).keys.card = m.keys.card - 1 := by
  rw [Finmap.keys_erase, Finset.card_erase_of_mem (Finmap.mem_keys.mpr ha)]

theorem keys_card_eq_zero : m.keys.card = 0 ↔ m = ∅ := by
  rw [Finset.card_eq_zero]
  constructor
  · intro hk
    apply Finmap.ext_lookup
    intro a
    rw [Finmap.lookup_empty, Finmap.lookup_eq_none, ← Finmap.mem_keys, hk]
    exact Finset.notMem_empty a
  · rintro rfl
    exact Finmap.keys_empty

theorem int_add_one (z : ℤ) : int (int z + 1) = int (z + 1) := Int.bmod_add_bmod

theorem int_card (hm : m.keys.card < 2 ^ 31) : int m.keys.card = m.keys.card := by
  refine Int.bmod_eq_of_le ?_ ?_ <;> omega

theorem Op.spec_card {op : Op} (hm : m.keys.card < 2 ^ 31) (hop : op.Room m) :
    (op.spec m).keys.card < 2 ^ 31 := by
  cases op with
  | add addr malloc =>
    rw [spec]
    split_ifs with ha
    · exact hm
    · have hroom : m.keys.card < 2 ^ 31 - 1 := hop ha
      rw [keys_insert ha]
      omega
  | store addr data =>
    rw [spec]
    split_ifs with ha
    · rwa [keys_store ha]
    · exact hm
  | pop addr =>
    rw [spec, Finmap.keys_erase]
    exact (Finset.card_erase_le).trans_lt hm
  | clear =>
    rw [spec, Finmap.keys_empty]
    decide

end Maps

/-- The address in a socket address, if its family is one of the map. -/
def Sockaddr.addr : Sockaddr → Option Addr
  | sockaddrIn sin_addr => some (.ip4 sin_addr)
  | sockaddrIn6 sin6_addr => some (.ip6 sin6_addr)
  | other _ => none

namespace Table

variable (w : Table)

def addr (e : EntryId) : Addr := (w.entries e).addr

def data (e : EntryId) : Data := (w.entries e).data

/-- The lists of the buckets hold the entries of a finite map. -/
structure Chained (w : Table) (xs : ℕ → List EntryId) (m : Map) : Prop where
  buckets : Buckets w.next w.heads xs
  slot : ∀ i, ∀ e ∈ xs i, w.index (w.addr e) = i
  lookup : ∀ i, ∀ e ∈ xs i, m.lookup (w.addr e) = some (w.data e)
  found : ∀ a ∈ m, ∃ e ∈ xs (w.index a), w.addr e = a
  unique : ∀ i, ∀ e ∈ xs i, ∀ e' ∈ xs i, w.addr e = w.addr e' → e = e'
  allocated : ∀ i, ∀ e ∈ xs i, e ∈ w.allocated

/-- The table represents a finite map. -/
structure Represents (w : Table) (m : Map) : Prop where
  chained : ∃ xs, w.Chained xs m
  count : w.count = int m.keys.card
  null : w.buckets = none ↔ m = ∅

section Fields

variable {w : Table} {i : ℕ} {link : Link EntryId} {q : Option EntryId} {e : EntryId} {x : Entry}

theorem next_assign : (w.assign i link q).next = link.assign q w.next := by
  cases link with
  | head => rfl
  | next l =>
    funext e
    by_cases h : e = l
    · subst h
      simp [next, assign, setEntry, Link.assign]
    · simp [next, assign, setEntry, Link.assign, h]

theorem heads_assign :
    (w.assign i link q).heads = Function.update w.heads i (link.assignHead q (w.heads i)) := by
  cases link with
  | head => rfl
  | next l => simp [assign, setEntry, heads, Link.assignHead]

@[simp] theorem addr_assign : (w.assign i link q).addr = w.addr := by
  cases link with
  | head => rfl
  | next l =>
    funext e
    by_cases h : e = l
    · subst h
      simp [addr, assign, setEntry]
    · simp [addr, assign, setEntry, h]

@[simp] theorem data_assign : (w.assign i link q).data = w.data := by
  cases link with
  | head => rfl
  | next l =>
    funext e
    by_cases h : e = l
    · subst h
      simp [data, assign, setEntry]
    · simp [data, assign, setEntry, h]

@[simp] theorem allocated_assign : (w.assign i link q).allocated = w.allocated := by
  cases link <;> rfl

@[simp] theorem count_assign : (w.assign i link q).count = w.count := by
  cases link <;> rfl

@[simp] theorem bucketSize_assign : (w.assign i link q).bucketSize = w.bucketSize := by
  cases link <;> rfl

theorem buckets_assign (hb : w.buckets ≠ none) : (w.assign i link q).buckets ≠ none := by
  cases link with
  | head => exact Option.some_ne_none _
  | next l => exact hb

theorem next_setEntry : (w.setEntry e x).next = Function.update w.next e x.next := by
  funext e'
  by_cases h : e' = e
  · subst h
    simp [next, setEntry]
  · simp [next, setEntry, h]

theorem addr_setEntry : (w.setEntry e x).addr = Function.update w.addr e x.addr := by
  funext e'
  by_cases h : e' = e
  · subst h
    simp [addr, setEntry]
  · simp [addr, setEntry, h]

theorem data_setEntry : (w.setEntry e x).data = Function.update w.data e x.data := by
  funext e'
  by_cases h : e' = e
  · subst h
    simp [data, setEntry]
  · simp [data, setEntry, h]

end Fields

section Search

variable {w : Table} {xs : ℕ → List EntryId} {m : Map} {a : Addr} {e : EntryId}
  {ys zs : List EntryId}

theorem Chained.length_lt (h : w.Chained xs m) (i : ℕ) :
    (xs i).length < w.allocated.length + 1 :=
  Nat.lt_succ_of_le ((h.buckets.chain i).nodup.subperm (h.allocated i)).length_le

/-- An address of the map has one entry, in the list of its bucket. -/
theorem Chained.exists_split (h : w.Chained xs m) (ha : a ∈ m) :
    ∃ ys e zs, xs (w.index a) = ys ++ e :: zs ∧ w.addr e = a := by
  obtain ⟨e, he, hea⟩ := h.found a ha
  obtain ⟨ys, zs, hx⟩ := List.append_of_mem he
  exact ⟨ys, e, zs, hx, hea⟩

theorem Chained.not_mem (h : w.Chained xs m) (ha : a ∉ m) {i : ℕ} (he : e ∈ xs i) :
    w.addr e ≠ a := by
  rintro rfl
  exact ha (Finmap.mem_of_lookup_eq_some (h.lookup i e he))

/-- Entries in front of the one with an address have other addresses. -/
theorem Chained.front (h : w.Chained xs m) (hx : xs (w.index a) = ys ++ e :: zs)
    (hea : w.addr e = a) : ∀ b ∈ ys, (w.addr b).eq a = false := by
  intro b hb
  rw [Bool.eq_false_iff, ne_eq, Addr.eq_iff]
  intro hba
  have hn := (h.buckets.chain (w.index a)).nodup
  rw [hx] at hn
  have he : e ∈ xs (w.index a) := by simp [hx]
  obtain rfl := h.unique _ b (by simp [hx, hb]) e he (hba.trans hea.symm)
  exact (List.nodup_append.mp hn).2.2 b hb b List.mem_cons_self rfl

theorem Chained.seek_found (h : w.Chained xs m) (hx : xs (w.index a) = ys ++ e :: zs)
    (hea : w.addr e = a) : w.seek a = some (Link.last ys) := by
  have hc := h.buckets.chain (w.index a)
  have hlen := h.length_lt (w.index a)
  rw [hx] at hc hlen
  rw [List.length_append] at hlen
  exact Chain.seek_found [] hc (by omega) (h.front hx hea) (Addr.eq_iff.mpr hea)

theorem Chained.deref_found (h : w.Chained xs m) (hx : xs (w.index a) = ys ++ e :: zs) :
    w.deref (w.index a) (Link.last ys) = some e :=
  (hx ▸ h.buckets.chain (w.index a)).deref_last

theorem Chained.seek_end (h : w.Chained xs m) (ha : a ∉ m) :
    w.seek a = some (Link.last (xs (w.index a))) := by
  refine Chain.seek_end [] (h.buckets.chain (w.index a)) (h.length_lt _) fun b hb => ?_
  rw [Bool.eq_false_iff, ne_eq, Addr.eq_iff]
  exact h.not_mem ha hb

theorem Chained.deref_end (h : w.Chained xs m) (i : ℕ) :
    w.deref i (Link.last (xs i)) = none :=
  @Chain.deref_last _ _ _ (xs i) [] ((List.append_nil (xs i)).symm ▸ h.buckets.chain i)

theorem get_eq (w : Table) (a : Addr) : w.get a =
    match w.buckets with
    | none => .ok none
    | some _ =>
      match w.seek a with
      | none => .error .misuse
      | some link => .ok (w.deref (w.index a) link) := by
  unfold get seek deref
  cases hb : w.buckets with
  | none => rfl
  | some b =>
    have hheads : w.heads = b := by rw [heads, hb, Option.getD_some]
    have hfind := @find_eq_seek _ w.next (b (w.index a)) (fun e => (w.entries e).addr.eq a)
      (w.allocated.length + 1) .head
    rw [Link.deref] at hfind
    rw [hheads]
    dsimp only
    rw [hfind]
    cases Link.head.seek (fun e => (w.entries e).addr.eq a) w.next (b (w.index a))
      (w.allocated.length + 1) <;> rfl

/-- Where an address is in a list, there are buckets. -/
theorem Chained.buckets_ne_none (h : w.Chained xs m) (ha : a ∈ m) : w.buckets ≠ none := by
  intro hb
  obtain ⟨e, he, -⟩ := h.found a ha
  have hchain := h.buckets.chain (w.index a)
  rw [heads, hb, Option.getD_none] at hchain
  rw [hchain.eq_nil] at he
  cases he

/-- A search finds the entry of an address of the map. -/
theorem Chained.get_some (h : w.Chained xs m) (hx : xs (w.index a) = ys ++ e :: zs)
    (hea : w.addr e = a) : w.get a = .ok (some e) := by
  have he : e ∈ xs (w.index a) := by simp [hx]
  have hm : a ∈ m := hea ▸ Finmap.mem_of_lookup_eq_some (h.lookup _ e he)
  obtain ⟨b, hb⟩ := Option.ne_none_iff_exists'.mp (h.buckets_ne_none hm)
  rw [get_eq, hb]
  dsimp only
  rw [h.seek_found hx hea]
  exact congrArg Except.ok (h.deref_found hx)

/-- A search finds nothing for other addresses. -/
theorem Chained.get_none (h : w.Chained xs m) (ha : a ∉ m) : w.get a = .ok none := by
  rw [get_eq]
  cases w.buckets with
  | none => rfl
  | some b =>
    dsimp only
    rw [h.seek_end ha]
    exact congrArg Except.ok (h.deref_end _)

theorem getSa_eq (w : Table) (sa : Option Sockaddr) : w.getSa sa =
    match sa.bind Sockaddr.addr with
    | none => .ok none
    | some a => w.get a := by
  rcases sa with _ | (_ | _ | _) <;> rfl

end Search

section Operations

variable {w w' : Table} {xs : ℕ → List EntryId} {m : Map} {a : Addr} {e : EntryId}
  {ys zs : List EntryId} {malloc : Malloc}

/-- What the lists hold depends on the fields of the entries in them, and on the heads. -/
theorem Chained.congr (h : w.Chained xs m) (hn : w'.next = w.next) (hh : w'.heads = w.heads)
    (ha : w'.addr = w.addr) (hd : w'.data = w.data) (hs : w'.bucketSize = w.bucketSize)
    (hm : w'.allocated = w.allocated) : w'.Chained xs m := by
  have hi : w'.index = w.index := by
    funext a
    rw [index, hs, index]
  constructor
  · rw [hn, hh]
    exact h.buckets
  · rw [hi, ha]
    exact h.slot
  · rw [ha, hd]
    exact h.lookup
  · rw [hi, ha]
    exact h.found
  · rw [ha]
    exact h.unique
  · rw [hm]
    exact h.allocated

/-- The table after a new entry was stored at the end of the list of its bucket. -/
def added (w : Table) (xs : ℕ → List EntryId) (a : Addr) (malloc : Malloc) : Table :=
  let w := { w.setEntry malloc.entry ⟨none, a, malloc.data⟩ with
    allocated := malloc.entry :: w.allocated }
  let w := w.assign (w.index a) (Link.last (xs (w.index a))) (some malloc.entry)
  { w with count := int (w.count + 1) }

theorem index_added (w : Table) (xs : ℕ → List EntryId) (a : Addr) (malloc : Malloc) :
    (w.added xs a malloc).index = w.index := by
  funext b
  simp [added, index, setEntry]

/-- Adding an address that is in the lists yields its entry, with the buckets allocated. -/
theorem Chained.addInt_of_mem (h : w.Chained xs m) (hx : xs (w.index a) = ys ++ e :: zs)
    (hea : w.addr e = a) (malloc : Malloc) :
    w.addInt a malloc = .ok (e, { w with buckets := some w.heads }) := by
  have hlazy : Chained { w with buckets := some w.heads } xs m := h.congr rfl rfl rfl rfl rfl rfl
  unfold addInt
  dsimp only
  rw [hlazy.seek_found hx hea]
  dsimp only
  rw [hlazy.deref_found hx]

/-- Adding another address yields the new entry, at the end of a list. -/
theorem Chained.addInt_of_notMem (h : w.Chained xs m) (ha : a ∉ m)
    (hf : malloc.entry ∉ w.allocated) : w.addInt a malloc =
      .ok (malloc.entry, added { w with buckets := some w.heads } xs a malloc) := by
  have hlazy : Chained { w with buckets := some w.heads } xs m := h.congr rfl rfl rfl rfl rfl rfl
  unfold addInt
  dsimp only
  rw [hlazy.seek_end ha]
  dsimp only
  rw [hlazy.deref_end]
  dsimp only
  rw [if_neg hf]
  rfl

theorem count_added (w : Table) (xs : ℕ → List EntryId) (a : Addr) (malloc : Malloc) :
    (w.added xs a malloc).count = int (w.count + 1) :=
  congrArg (fun z => int (z + 1)) count_assign

theorem addr_added (w : Table) (xs : ℕ → List EntryId) (a : Addr) (malloc : Malloc) :
    (w.added xs a malloc).addr = Function.update w.addr malloc.entry a :=
  addr_assign.trans addr_setEntry

theorem Chained.added (h : w.Chained xs m) (ha : a ∉ m) (hf : malloc.entry ∉ w.allocated) :
    (w.added xs a malloc).Chained
      (Function.update xs (w.index a) (xs (w.index a) ++ [malloc.entry]))
      (m.insert a malloc.data) := by
  have hout : ∀ i, malloc.entry ∉ xs i := fun i hm => hf (h.allocated i _ hm)
  have hne : ∀ {i e}, e ∈ xs i → e ≠ malloc.entry := by
    rintro i e he rfl
    exact hout i he
  have hindex := index_added w xs a malloc
  have haddr := addr_added w xs a malloc
  have hdata : (w.added xs a malloc).data = Function.update w.data malloc.entry malloc.data :=
    data_assign.trans data_setEntry
  have hself : (w.added xs a malloc).addr malloc.entry = a := by
    rw [haddr, Function.update_self]
  have hother : ∀ {i e}, e ∈ xs i → (w.added xs a malloc).addr e = w.addr e := by
    intro i e he
    rw [haddr, Function.update_of_ne (hne he)]
  have hmem : ∀ {i e}, e ∈ Function.update xs (w.index a) (xs (w.index a) ++ [malloc.entry]) i →
      e ∈ xs i ∨ e = malloc.entry ∧ i = w.index a := by
    intro i e he
    by_cases hi : i = w.index a
    · subst hi
      rw [Function.update_self, List.mem_append, List.mem_singleton] at he
      exact he.imp id fun he => ⟨he, rfl⟩
    · rw [Function.update_of_ne hi] at he
      exact .inl he
  constructor
  case buckets =>
    change Buckets (assign _ _ _ _).next (assign _ _ _ _).heads _
    rw [next_assign, heads_assign]
    have hb := (h.buckets.update (q := none) hout).append hout (by simp) (w.index a)
    rw [← next_setEntry (x := ⟨none, a, malloc.data⟩)] at hb
    exact hb
  case slot =>
    intro i e he
    rw [hindex]
    rcases hmem he with he | ⟨rfl, rfl⟩
    · rw [hother he]
      exact h.slot i e he
    · rw [hself]
  case lookup =>
    intro i e he
    rw [hdata]
    rcases hmem he with he | ⟨rfl, rfl⟩
    · rw [hother he, Function.update_of_ne (hne he), Finmap.lookup_insert_of_ne _ (h.not_mem ha he)]
      exact h.lookup i e he
    · rw [hself, Function.update_self, Finmap.lookup_insert]
  case found =>
    intro b hb
    rw [hindex]
    rcases Finmap.mem_insert.mp hb with rfl | hb
    · exact ⟨malloc.entry, by simp, hself⟩
    · obtain ⟨e, he, heb⟩ := h.found b hb
      refine ⟨e, ?_, (hother he).trans heb⟩
      by_cases hi : w.index b = w.index a
      · rw [hi, Function.update_self]
        exact List.mem_append_left _ (hi ▸ he)
      · rwa [Function.update_of_ne hi]
  case unique =>
    intro i e he e' he' heq
    rcases hmem he with he | ⟨rfl, -⟩
    · rw [hother he] at heq
      rcases hmem he' with he' | ⟨rfl, -⟩
      · rw [hother he'] at heq
        exact h.unique i e he e' he' heq
      · rw [hself] at heq
        exact absurd heq (h.not_mem ha he)
    · rw [hself] at heq
      rcases hmem he' with he' | ⟨rfl, -⟩
      · rw [hother he'] at heq
        exact absurd heq.symm (h.not_mem ha he')
      · rfl
  case allocated =>
    intro i e he
    change e ∈ (assign _ _ _ _).allocated
    rw [allocated_assign]
    rcases hmem he with he | ⟨rfl, -⟩
    · exact List.mem_cons_of_mem _ (h.allocated i e he)
    · exact List.mem_cons_self

/-- The table after the entry behind `ys` was taken out of the list of the bucket `i`. -/
def popped (w : Table) (i : ℕ) (ys : List EntryId) (e : EntryId) : Table :=
  let w := w.assign i (Link.last ys) (w.next e)
  { w with allocated := w.allocated.erase e }

theorem Chained.popped (h : w.Chained xs m) (hx : xs (w.index a) = ys ++ e :: zs)
    (hea : w.addr e = a) :
    (w.popped (w.index a) ys e).Chained (Function.update xs (w.index a) (ys ++ zs))
      (m.erase a) := by
  have hindex : (w.popped (w.index a) ys e).index = w.index := by
    funext b
    simp [Table.popped, index]
  have haddr : (w.popped (w.index a) ys e).addr = w.addr := addr_assign
  have hdata : (w.popped (w.index a) ys e).data = w.data := data_assign
  have he : e ∈ xs (w.index a) := by simp [hx]
  have hn := (h.buckets.chain (w.index a)).nodup
  rw [hx] at hn
  have hnot : e ∉ ys ++ zs := (List.nodup_cons.mp (List.nodup_middle.mp hn)).1
  have hmem : ∀ {i e'}, e' ∈ Function.update xs (w.index a) (ys ++ zs) i → e' ∈ xs i ∧ e' ≠ e := by
    intro i e' he'
    by_cases hi : i = w.index a
    · subst hi
      rw [Function.update_self] at he'
      refine ⟨?_, fun h => hnot (h ▸ he')⟩
      rw [hx]
      exact (List.mem_append.mp he').elim (List.mem_append_left _) fun h =>
        List.mem_append_right _ (List.mem_cons_of_mem _ h)
    · rw [Function.update_of_ne hi] at he'
      refine ⟨he', ?_⟩
      rintro rfl
      exact hi (h.buckets.disjoint _ _ _ he' he)
  have hne : ∀ {i e'}, e' ∈ xs i → e' ≠ e → w.addr e' ≠ a := by
    intro i e' he' hee haa
    have hi : i = w.index a := by rw [← h.slot i e' he', haa]
    subst hi
    exact hee (h.unique _ e' he' e he (haa.trans hea.symm))
  constructor
  case buckets =>
    change Buckets (w.assign _ _ _).next (w.assign _ _ _).heads _
    rw [next_assign, heads_assign]
    exact h.buckets.unlink hx
  case slot =>
    intro i e' he'
    rw [hindex, haddr]
    exact h.slot i e' (hmem he').1
  case lookup =>
    intro i e' he'
    obtain ⟨hin, hee⟩ := hmem he'
    rw [haddr, hdata, Finmap.lookup_erase_ne (hne hin hee)]
    exact h.lookup i e' hin
  case found =>
    intro b hb
    obtain ⟨hba, hb⟩ := Finmap.mem_erase.mp hb
    obtain ⟨e', he', heb⟩ := h.found b hb
    have hee : e' ≠ e := by
      rintro rfl
      exact hba (heb.symm.trans hea)
    refine ⟨e', ?_, by rw [haddr]; exact heb⟩
    rw [hindex]
    by_cases hi : w.index b = w.index a
    · rw [hi, Function.update_self]
      rw [hi, hx] at he'
      simpa [hee] using he'
    · rwa [Function.update_of_ne hi]
  case unique =>
    intro i e₁ h₁ e₂ h₂
    rw [haddr]
    exact h.unique i e₁ (hmem h₁).1 e₂ (hmem h₂).1
  case allocated =>
    intro i e' he'
    obtain ⟨hin, hee⟩ := hmem he'
    change e' ∈ (w.assign _ _ _).allocated.erase e
    rw [allocated_assign]
    exact (List.mem_erase_of_ne hee).mpr (h.allocated i e' hin)

/-- The table after its count was lowered, without buckets if none is left. -/
def lowered (w : Table) : Table :=
  let count := w.count - 1
  { w with count, buckets := if count = 0 then none else w.buckets }

/-- The buckets are freed when the lists are empty. -/
theorem Chained.lower (h : w.Chained xs m) (hz : w.count - 1 = 0 → ∀ i, xs i = []) :
    w.lowered.Chained xs m := by
  have hheads : w.lowered.heads = w.heads := by
    by_cases hc : w.count - 1 = 0
    · have hnone : w.lowered.buckets = none := if_pos hc
      funext i
      have hchain := h.buckets.chain i
      rw [hz hc i] at hchain
      rw [heads, hnone]
      exact hchain.symm
    · have hsome : w.lowered.buckets = w.buckets := if_neg hc
      rw [heads, hsome, heads]
  exact h.congr rfl hheads rfl rfl rfl rfl

/-- Popping an address that is in the lists takes its entry out. -/
theorem Chained.popInt_of_mem (h : w.Chained xs m) (hx : xs (w.index a) = ys ++ e :: zs)
    (hea : w.addr e = a) (hb : w.buckets ≠ none) (hc : 0 < w.count) :
    w.popInt a = .ok (some (w.data e), (w.popped (w.index a) ys e).lowered) := by
  obtain ⟨b, hsome⟩ := Option.ne_none_iff_exists'.mp hb
  have hcount : (w.popped (w.index a) ys e).count = w.count := count_assign
  unfold popInt
  rw [hsome]
  dsimp only
  rw [h.seek_found hx hea]
  dsimp only
  rw [h.deref_found hx]
  exact if_neg (not_le.mpr (hcount ▸ hc))

/-- Where an address is not there, nothing is taken out. -/
theorem Chained.popInt_of_notMem (h : w.Chained xs m) (ha : a ∉ m) :
    w.popInt a = .ok (none, w) := by
  unfold popInt
  cases w.buckets with
  | none => rfl
  | some b =>
    dsimp only
    rw [h.seek_end ha]
    dsimp only
    rw [h.deref_end]

end Operations

section Represents

variable {w w' : Table} {xs : ℕ → List EntryId} {m : Map} {a : Addr} {e : EntryId}
  {d : Data} {malloc : Malloc} {ys zs : List EntryId}

theorem Represents.buckets_ne_none (h : w.Represents m) (ha : a ∈ m) : w.buckets ≠ none := by
  obtain ⟨xs, hc⟩ := h.chained
  exact hc.buckets_ne_none ha

/-- A table without buckets represents the empty map. -/
theorem represents_empty (hb : w.buckets = none) (hc : w.count = 0) : w.Represents ∅ := by
  have hheads : w.heads = fun _ => none := by rw [heads, hb, Option.getD_none]
  refine ⟨⟨fun _ => [], hheads ▸ buckets_nil, ?_, ?_, ?_, ?_, ?_⟩, by simp [hc, int],
    iff_of_true hb rfl⟩
  · rintro _ _ ⟨⟩
  · rintro _ _ ⟨⟩
  · exact fun a ha => absurd ha Finmap.notMem_empty
  · rintro _ _ ⟨⟩
  · rintro _ _ ⟨⟩

/-- Adding an address that is there yields its entry and changes nothing. -/
theorem Represents.addInt_of_mem (h : w.Represents m) (ha : a ∈ m) (malloc : Malloc) :
    ∃ e, w.get a = .ok (some e) ∧ w.addInt a malloc = .ok (e, w) := by
  obtain ⟨xs, hc⟩ := h.chained
  obtain ⟨ys, e, zs, hx, hea⟩ := hc.exists_split ha
  refine ⟨e, hc.get_some hx hea, ?_⟩
  have hsame : { w with buckets := some w.heads } = w := by
    obtain ⟨b, hb⟩ := Option.ne_none_iff_exists'.mp (h.buckets_ne_none ha)
    rw [heads, hb, Option.getD_some, ← hb]
  rw [hc.addInt_of_mem hx hea, hsame]

/-- Adding another address yields a new entry, which a search then finds. -/
theorem Represents.addInt_of_notMem (h : w.Represents m) (ha : a ∉ m) (malloc : Malloc)
    (hf : malloc.entry ∉ w.allocated) :
    ∃ w', w.addInt a malloc = .ok (malloc.entry, w') ∧ w'.Represents (m.insert a malloc.data) ∧
      w'.get a = .ok (some malloc.entry) ∧ w'.allocated = malloc.entry :: w.allocated := by
  obtain ⟨xs, hc⟩ := h.chained
  have hlazy : Chained { w with buckets := some w.heads } xs m := hc.congr rfl rfl rfl rfl rfl rfl
  have hadd := hc.addInt_of_notMem ha hf
  have hchained := hlazy.added ha hf
  have hrep : (added { w with buckets := some w.heads } xs a malloc).Represents
      (m.insert a malloc.data) := by
    refine ⟨⟨_, hchained⟩, ?_, iff_of_false (buckets_assign (by simp [setEntry])) ?_⟩
    · rw [count_added, keys_insert ha, Int.natCast_succ, ← int_add_one m.keys.card]
      change int (w.count + 1) = _
      rw [h.count]
    · intro he
      have hmem : a ∈ m.insert a malloc.data := Finmap.mem_insert.mpr (.inl rfl)
      rw [he] at hmem
      exact Finmap.notMem_empty hmem
  have hx : Function.update xs (w.index a) (xs (w.index a) ++ [malloc.entry])
      ((added { w with buckets := some w.heads } xs a malloc).index a) =
      xs (w.index a) ++ malloc.entry :: [] := by
    rw [index_added]
    exact Function.update_self _ _ _
  exact ⟨_, hadd, hrep, hchained.get_some hx (by rw [addr_added, Function.update_self]),
    allocated_assign⟩

theorem Chained.lowered (h : w.Chained xs m) (hb : w.buckets ≠ none)
    (hc : w.count - 1 = m.keys.card) (hm : m.keys.card < 2 ^ 31) : w.lowered.Represents m := by
  have hcount : w.lowered.count = int m.keys.card := hc.trans (int_card hm).symm
  by_cases hz : m = ∅
  · have hnil : ∀ i, xs i = [] := fun i => List.eq_nil_iff_forall_not_mem.mpr fun e he => by
      have hl := h.lookup i e he
      rw [hz, Finmap.lookup_empty] at hl
      cases hl
    have hzero : w.count - 1 = 0 := by
      rw [hc, keys_card_eq_zero.mpr hz]
      rfl
    have hnone : w.lowered.buckets = none := if_pos hzero
    exact ⟨⟨xs, h.lower fun _ => hnil⟩, hcount, iff_of_true hnone hz⟩
  · have hpos : 0 < m.keys.card := Nat.pos_of_ne_zero fun h => hz (keys_card_eq_zero.mp h)
    have hne : w.count - 1 ≠ 0 := by omega
    have hsome : w.lowered.buckets = w.buckets := if_neg hne
    exact ⟨⟨xs, h.lower fun hzero => absurd hzero hne⟩, hcount, iff_of_false (hsome ▸ hb) hz⟩

/-- The entry of an address is taken out, with the data in it. -/
theorem Represents.popInt_of_mem (h : w.Represents m) (ha : a ∈ m) (hm : m.keys.card < 2 ^ 31) :
    ∃ w', w.popInt a = .ok (m.lookup a, w') ∧ w'.Represents (m.erase a) := by
  obtain ⟨xs, hchained⟩ := h.chained
  obtain ⟨ys, e, zs, hx, hea⟩ := hchained.exists_split ha
  have he : e ∈ xs (w.index a) := by simp [hx]
  have hlookup : m.lookup a = some (w.data e) := hea ▸ hchained.lookup _ e he
  have hpos : 0 < m.keys.card := Finset.card_pos.mpr ⟨a, Finmap.mem_keys.mpr ha⟩
  have hcard := keys_erase ha
  have hcount : (w.popped (w.index a) ys e).count = m.keys.card := by
    rw [← int_card hm, ← h.count]
    exact count_assign
  have hb := h.buckets_ne_none ha
  have hpop := hchained.popInt_of_mem hx hea hb (by rw [h.count, int_card hm]; omega)
  rw [hlookup]
  exact ⟨_, hpop, (hchained.popped hx hea).lowered (buckets_assign hb) (by omega) (by omega)⟩

/-- Where an address is not there, nothing is taken out. -/
theorem Represents.popInt_of_notMem (h : w.Represents m) (ha : a ∉ m) :
    w.popInt a = .ok (none, w) := by
  obtain ⟨xs, hchained⟩ := h.chained
  exact hchained.popInt_of_notMem ha

/-- Data is stored in the entry of an address. -/
theorem Chained.store (h : w.Chained xs m) (hx : xs (w.index a) = ys ++ e :: zs)
    (hea : w.addr e = a) (d : Data) :
    (w.setEntry e { w.entries e with data := d }).Chained xs (m.insert a d) := by
  have he : e ∈ xs (w.index a) := by simp [hx]
  have hnext : (w.setEntry e { w.entries e with data := d }).next = w.next :=
    next_setEntry.trans (Function.update_eq_self e w.next)
  have haddr : (w.setEntry e { w.entries e with data := d }).addr = w.addr :=
    addr_setEntry.trans (Function.update_eq_self e w.addr)
  constructor
  case buckets =>
    rw [hnext]
    exact h.buckets
  case slot =>
    rw [haddr]
    exact h.slot
  case lookup =>
    intro i e' he'
    rw [haddr, data_setEntry]
    by_cases hee : e' = e
    · subst hee
      rw [Function.update_self, hea, Finmap.lookup_insert]
    · have hne : w.addr e' ≠ a := by
        intro haa
        have hi : i = w.index a := by rw [← h.slot i e' he', haa]
        subst hi
        exact hee (h.unique _ e' he' e he (haa.trans hea.symm))
      rw [Function.update_of_ne hee, Finmap.lookup_insert_of_ne _ hne]
      exact h.lookup i e' he'
  case found =>
    rw [haddr]
    intro b hb
    rcases Finmap.mem_insert.mp hb with rfl | hb
    · exact ⟨e, he, hea⟩
    · exact h.found b hb
  case unique =>
    rw [haddr]
    exact h.unique
  case allocated => exact h.allocated

theorem Represents.store (h : w.Represents m) (ha : a ∈ m) (d : Data) :
    ∃ e, w.get a = .ok (some e) ∧
      (w.setEntry e { w.entries e with data := d }).Represents (m.insert a d) := by
  obtain ⟨xs, hchained⟩ := h.chained
  obtain ⟨ys, e, zs, hx, hea⟩ := hchained.exists_split ha
  refine ⟨e, hchained.get_some hx hea, ⟨xs, hchained.store hx hea d⟩, ?_, ?_⟩
  · rw [keys_store ha]
    exact h.count
  · refine iff_of_false (h.buckets_ne_none ha) fun hempty => ?_
    have hmem : a ∈ m.insert a d := Finmap.mem_insert.mpr (.inl rfl)
    rw [hempty] at hmem
    exact Finmap.notMem_empty hmem

end Represents

end Table

/-- The tables that operations reach from a new one, with the finite map that the same operations
lead to, where every operation meets the condition `P` on the map before it. -/
inductive Reaches (P : Map → Op → Prop) (bucketSize : ℕ) : Table → Map → Prop
  | init (entries : EntryId → Entry) (h : 0 < bucketSize) :
    Reaches P bucketSize (init bucketSize entries) ∅
  | step {w w' : Table} {m : Map} {op : Op} (hw : Reaches P bucketSize w m)
    (hop : op.Mallocs w m) (hP : P m op) (h : op.exec w = .ok w') :
    Reaches P bucketSize w' (op.spec m)

section Runs

variable {w : Table} {m : Map} {op : Op} {bucketSize : ℕ}

/-- An operation does to the table what it does to the map. -/
theorem Op.exec_represents (h : w.Represents m) (hm : m.keys.card < 2 ^ 31)
    (hop : op.Mallocs w m) : ∃ w', op.exec w = .ok w' ∧ w'.Represents (op.spec m) := by
  cases op with
  | add addr malloc =>
    by_cases ha : addr ∈ m
    · obtain ⟨e, -, hadd⟩ := h.addInt_of_mem ha malloc
      rw [exec, hadd, spec, if_pos ha]
      exact ⟨w, rfl, h⟩
    · obtain ⟨w', hadd, hw', -⟩ := h.addInt_of_notMem ha malloc (hop ha)
      rw [exec, hadd, spec, if_neg ha]
      exact ⟨w', rfl, hw'⟩
  | store addr data =>
    by_cases ha : addr ∈ m
    · obtain ⟨e, hget, hw'⟩ := h.store ha data
      rw [exec, hget, spec, if_pos ha]
      exact ⟨_, rfl, hw'⟩
    · obtain ⟨xs, hc⟩ := h.chained
      rw [exec, hc.get_none ha, spec, if_neg ha]
      exact ⟨w, rfl, h⟩
  | pop addr =>
    by_cases ha : addr ∈ m
    · obtain ⟨w', hpop, hw'⟩ := h.popInt_of_mem ha hm
      rw [exec, hpop]
      exact ⟨w', rfl, hw'⟩
    · rw [exec, h.popInt_of_notMem ha, spec, erase_eq ha]
      exact ⟨w, rfl, h⟩
  | clear => exact ⟨_, rfl, Table.represents_empty rfl rfl⟩

theorem Reaches.represents (h : Reaches (fun m op => op.Room m) bucketSize w m) :
    w.Represents m ∧ m.keys.card < 2 ^ 31 := by
  induction h with
  | init entries _ => exact ⟨Table.represents_empty rfl rfl, by rw [Finmap.keys_empty]; decide⟩
  | @step w w' m op _ hop hP hy ih =>
    obtain ⟨z, hz, hrep⟩ := op.exec_represents ih.1 ih.2 hop
    rw [hy] at hz
    obtain rfl := Except.ok.inj hz
    exact ⟨hrep, op.spec_card ih.2 hP⟩

/-- While it holds less than 2 ^ 31 keys, the table is a finite map. -/
theorem represents_map (h : Reaches (fun m op => op.Room m) bucketSize w m) :
    w.Represents m ∧ w.count = m.keys.card ∧ (w.buckets = none ↔ w.count = 0) ∧
      (∀ op : Op, op.Mallocs w m → ∃ w', op.exec w = .ok w') ∧
      (∀ a ∈ m, ∀ malloc, ∃ e, w.get a = .ok (some e) ∧ w.addInt a malloc = .ok (e, w)) ∧
      (∀ a, ∃ r, w.get a = .ok r ∧ (r.isSome ↔ a ∈ m) ∧
        ∀ e, r = some e → w.addr e = a ∧ m.lookup a = some (w.data e)) ∧
      (∀ sa : Option Sockaddr, w.getSa sa =
        match sa.bind Sockaddr.addr with
        | none => .ok none
        | some a => w.get a) ∧
      (∀ a, ∃ w', w.popInt a = .ok (m.lookup a, w') ∧ w'.Represents (m.erase a)) := by
  obtain ⟨hrep, hm⟩ := h.represents
  have hcount : w.count = m.keys.card := hrep.count.trans (int_card hm)
  refine ⟨hrep, hcount, ?_, fun op hop => ?_, fun a ha => hrep.addInt_of_mem ha, fun a => ?_,
    Table.getSa_eq w, fun a => ?_⟩
  · rw [hrep.null, hcount, ← keys_card_eq_zero]
    exact Int.natCast_eq_zero.symm
  · obtain ⟨w', hw', -⟩ := op.exec_represents hrep hm hop
    exact ⟨w', hw'⟩
  · obtain ⟨xs, hc⟩ := hrep.chained
    by_cases ha : a ∈ m
    · obtain ⟨ys, e, zs, hx, hea⟩ := hc.exists_split ha
      refine ⟨some e, hc.get_some hx hea, iff_of_true rfl ha, ?_⟩
      rintro _ ⟨⟩
      have he : e ∈ xs (w.index a) := by simp [hx]
      exact ⟨hea, hea ▸ hc.lookup _ e he⟩
    · exact ⟨none, hc.get_none ha, iff_of_false Bool.false_ne_true ha, by rintro _ ⟨⟩⟩
  · by_cases ha : a ∈ m
    · exact hrep.popInt_of_mem ha hm
    · rw [erase_eq ha, Finmap.lookup_eq_none.mpr ha]
      exact ⟨w, hrep.popInt_of_notMem ha, hrep⟩

/-- An address is added to a table of four buckets. -/
theorem represents_map_add :
    ∃ w m, Reaches (fun m op => op.Room m) 4 w m ∧ Addr.ip4 7 ∈ m ∧ w.count = m.keys.card := by
  have h0 : Reaches (fun m op => op.Room m) 4 _ _ :=
    .init (fun _ => ⟨none, .ip4 0, 0⟩) (by decide)
  have h1 := @Reaches.step _ _ _ _ _ (.add (.ip4 7) ⟨0, 5⟩) h0 (by rintro _ ⟨⟩)
    (fun _ => by rw [Finmap.keys_empty]; decide) rfl
  rw [Op.spec, if_neg Finmap.notMem_empty] at h1
  exact ⟨_, _, h1, Finmap.mem_insert.mpr (.inl rfl), (represents_map h1).2.1⟩

/-- One address after the other is added. -/
theorem reaches_card (n : ℕ) (hn : n < 2 ^ 32) :
    ∃ w m, Reaches (fun _ _ => True) 1 w m ∧ w.Represents m ∧ m.keys.card = n ∧
      (∀ a ∈ m, ∃ i < n, a = .ip4 (UInt32.ofNat i)) ∧ ∀ e ∈ w.allocated, e < n := by
  induction n with
  | zero =>
    refine ⟨_, _, .init (fun _ => ⟨none, .ip4 0, 0⟩) Nat.zero_lt_one,
      Table.represents_empty rfl rfl, ?_, ?_, ?_⟩
    · rw [Finmap.keys_empty, Finset.card_empty]
    · exact fun a ha => absurd ha Finmap.notMem_empty
    · rintro _ ⟨⟩
  | succ n ih =>
    obtain ⟨w, m, hreach, hrep, hcard, hkeys, hfresh⟩ := ih (by omega)
    have ha : Addr.ip4 (UInt32.ofNat n) ∉ m := by
      intro hmem
      obtain ⟨i, hi, heq⟩ := hkeys _ hmem
      have hnat := congrArg UInt32.toNat (Addr.ip4.inj heq)
      have hsize : UInt32.size = 2 ^ 32 := rfl
      rw [UInt32.toNat_ofNat_of_lt' (by omega), UInt32.toNat_ofNat_of_lt' (by omega)] at hnat
      omega
    have hf : n ∉ w.allocated := fun hmem => Nat.lt_irrefl n (hfresh n hmem)
    obtain ⟨w', hadd, hrep', -, halloc⟩ := hrep.addInt_of_notMem ha ⟨n, 0⟩ hf
    have hexec : (Op.add (.ip4 (UInt32.ofNat n)) ⟨n, 0⟩).exec w = .ok w' := by
      rw [Op.exec, hadd]
      rfl
    have hmallocs : (Op.add (.ip4 (UInt32.ofNat n)) ⟨n, 0⟩).Mallocs w m := fun _ => hf
    have hstep := hreach.step hmallocs trivial hexec
    rw [Op.spec, if_neg ha] at hstep
    refine ⟨w', _, hstep, hrep', ?_, ?_, ?_⟩
    · rw [keys_insert ha, hcard]
    · intro a hmem
      rcases Finmap.mem_insert.mp hmem with rfl | hmem
      · exact ⟨n, Nat.lt_succ_self n, rfl⟩
      · obtain ⟨i, hi, heq⟩ := hkeys a hmem
        exact ⟨i, hi.trans (Nat.lt_succ_self n), heq⟩
    · rw [halloc]
      intro e he
      rcases List.mem_cons.mp he with rfl | he
      · exact Nat.lt_succ_self _
      · exact (hfresh e he).trans (Nat.lt_succ_self n)

/-- The key after as many as an `int` can count makes the count negative. -/
theorem not_represents_map_all : ¬∀ (bucketSize : ℕ) (w : Table) (m : Map),
    Reaches (fun _ _ => True) bucketSize w m → w.count = m.keys.card := by
  intro h
  obtain ⟨w, m, hreach, hrep, hcard, -⟩ := reaches_card (2 ^ 31) (by decide)
  have hcount := (hrep.count.symm.trans (h 1 w m hreach))
  rw [hcard] at hcount
  revert hcount
  decide

end Runs

end FrameTransporter.IpHashMap
