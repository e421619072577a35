import FrameTransporter.Cols.FiniteMap

/-! # Who owns the entries of a map

Entries are allocated by add and freed by pop, one at a time, while clear and fini
free the buckets alone. So each entry that is allocated can be reached from its
bucket as long as the map is cleared only when it has none.
-/

namespace FrameTransporter.IpHashMap

open Intrusive

/-- `ft_iphashmap_fini`. The entries stay allocated, and the count stays as it is. -/
def Table.fini (w : Table) : Table := { w with buckets := none }

/-- The calls that change which entries a map has. Where memory is allocated, the flag tells whether
there is room for the buckets, and a result of `malloc` is null without room for the entry. -/
inductive Call
  | add (addr : Addr) (table : Bool) (entry : Option Malloc)
  | pop (addr : Addr)
  | clear
  | fini

namespace Call

/-- What a call does. Without room for an entry, the buckets are allocated nevertheless. -/
def exec (w : Table) : Call → Except Fault Table
  | add addr table entry =>
    if w.buckets.isNone = true ∧ table = false then .ok w
    else
      match entry with
      | none => .ok { w with buckets := some w.heads }
      | some m => (w.addInt addr m).map Prod.snd
  | pop addr => (w.popInt addr).map Prod.snd
  | clear => .ok w.clear
  | fini => .ok w.fini

/-- The entries that a call passes to `free`. -/
def frees (w : Table) : Call → List EntryId
  | pop addr =>
    match w.buckets, w.seek addr with
    | some _, some link => (w.deref (w.index addr) link).toList
    | _, _ => []
  | _ => []

/-- An address that `malloc` returns for a new entry is not in use. -/
def Fresh (w : Table) : Call → Prop
  | add addr _ (some m) => (∀ e ∈ w.allocated, w.addr e ≠ addr) → m.entry ∉ w.allocated
  | _ => True

/-- The map is cleared only when it has no entries, and it never has more of them than an `int`
counts. -/
def Kept (w : Table) : Call → Prop
  | add addr _ _ => (∀ e ∈ w.allocated, w.addr e ≠ addr) → w.allocated.length < 2 ^ 31 - 1
  | pop _ => True
  | clear => w.allocated = []
  | fini => w.allocated = []

end Call

namespace Table

variable {w w' : Table} {xs : ℕ → List EntryId} {m : Map} {a : Addr} {e : EntryId}
  {ys zs : List EntryId} {malloc : Malloc}

/-- An entry that can be reached from one of the buckets. -/
def Reachable (w : Table) (e : EntryId) : Prop :=
  ∃ i < w.bucketSize, ∃ xs, Chain w.next (w.heads i) xs ∧ e ∈ xs

/-- The allocated entries are those in the lists of the buckets, and the count is their number. -/
structure Owned (w : Table) : Prop where
  size : 0 < w.bucketSize
  chained : ∃ m xs, w.Chained xs m ∧ ∀ e ∈ w.allocated, ∃ i, e ∈ xs i
  nodup : w.allocated.Nodup
  count : w.count = w.allocated.length
  bound : w.allocated.length < 2 ^ 31

theorem Owned.reachable (h : w.Owned) (he : e ∈ w.allocated) : w.Reachable e := by
  obtain ⟨m, xs, hc, hlive⟩ := h.chained
  obtain ⟨i, hi⟩ := hlive e he
  refine ⟨i, ?_, xs i, hc.buckets.chain i, hi⟩
  rw [← hc.slot i e hi]
  exact Nat.mod_lt _ h.size

/-- Without entries the buckets do not matter. -/
theorem Owned.of_nil (hs : 0 < w.bucketSize) (hb : w.buckets = none) (hc : w.count = 0)
    (hn : w.allocated = []) : w.Owned where
  size := hs
  chained := by
    obtain ⟨xs, h⟩ := (represents_empty hb hc).chained
    exact ⟨∅, xs, h, by simp [hn]⟩
  nodup := by simp [hn]
  count := by simp [hn, hc]
  bound := by simp [hn]

/-- The buckets may be allocated at any time. -/
theorem Owned.lazy (h : w.Owned) : Owned { w with buckets := some w.heads } where
  size := h.size
  chained := by
    obtain ⟨m, xs, hc, hlive⟩ := h.chained
    exact ⟨m, xs, hc.congr rfl rfl rfl rfl rfl rfl, hlive⟩
  nodup := h.nodup
  count := h.count
  bound := h.bound

/-- A new entry is at the end of the list of its bucket. -/
theorem Owned.added (h : w.Owned) (hc : w.Chained xs m)
    (hlive : ∀ e ∈ w.allocated, ∃ i, e ∈ xs i) (ha : a ∉ m)
    (hf : malloc.entry ∉ w.allocated) (hroom : w.allocated.length < 2 ^ 31 - 1) :
    (w.added xs a malloc).Owned := by
  have hallocated : (w.added xs a malloc).allocated = malloc.entry :: w.allocated :=
    allocated_assign
  have hlength : (w.added xs a malloc).allocated.length = w.allocated.length + 1 := by
    rw [hallocated, List.length_cons]
  constructor
  case size =>
    have hsize : (w.added xs a malloc).bucketSize = w.bucketSize := bucketSize_assign
    exact hsize ▸ h.size
  case chained =>
    refine ⟨_, _, hc.added ha hf, fun e he => ?_⟩
    rw [hallocated] at he
    rcases List.mem_cons.mp he with rfl | he
    · exact ⟨w.index a, by simp⟩
    · obtain ⟨i, hi⟩ := hlive e he
      refine ⟨i, ?_⟩
      by_cases hia : i = w.index a
      · subst hia
        rw [Function.update_self]
        exact List.mem_append_left _ hi
      · rwa [Function.update_of_ne hia]
  case nodup =>
    rw [hallocated]
    exact List.nodup_cons.mpr ⟨hf, h.nodup⟩
  case count =>
    rw [count_added, hlength, h.count]
    refine Int.bmod_eq_of_le ?_ ?_ <;> omega
  case bound => omega

/-- The entry that is taken out is in no list any more, and the buckets are freed with the last
one. -/
theorem Owned.popped (h : w.Owned) (hc : w.Chained xs m)
    (hlive : ∀ e ∈ w.allocated, ∃ i, e ∈ xs i) (hx : xs (w.index a) = ys ++ e :: zs)
    (hea : w.addr e = a) : (w.popped (w.index a) ys e).lowered.Owned := by
  have he : e ∈ w.allocated := hc.allocated (w.index a) e (by simp [hx])
  have hallocated : (w.popped (w.index a) ys e).allocated = w.allocated.erase e :=
    congrArg (List.erase · e) allocated_assign
  have hlength := List.length_erase_of_mem he
  have hpos := List.length_pos_of_mem he
  have hcount : (w.popped (w.index a) ys e).count = w.allocated.length :=
    (count_assign : _ = w.count).trans h.count
  have hchained := hc.popped hx hea
  constructor
  case size =>
    have hsize : (w.popped (w.index a) ys e).bucketSize = w.bucketSize := bucketSize_assign
    exact hsize ▸ h.size
  case chained =>
    refine ⟨_, _, hchained.lower fun hz i => ?_, fun e' he' => ?_⟩
    · -- no entry is left that could be in a list
      refine List.eq_nil_iff_forall_not_mem.mpr fun e' he' => ?_
      have hmem := hchained.allocated i e' he'
      rw [hallocated] at hmem
      have := List.length_pos_of_mem hmem
      omega
    · change e' ∈ (w.popped (w.index a) ys e).allocated at he'
      rw [hallocated, h.nodup.mem_erase_iff] at he'
      obtain ⟨i, hi⟩ := hlive e' he'.2
      refine ⟨i, ?_⟩
      by_cases hia : i = w.index a
      · subst hia
        rw [Function.update_self]
        rw [hx] at hi
        simpa [he'.1] using hi
      · rwa [Function.update_of_ne hia]
  case nodup =>
    change (w.popped (w.index a) ys e).allocated.Nodup
    rw [hallocated]
    exact h.nodup.erase e
  case count =>
    change (w.popped (w.index a) ys e).count - 1 = (w.popped (w.index a) ys e).allocated.length
    rw [hallocated]
    omega
  case bound =>
    change (w.popped (w.index a) ys e).allocated.length < 2 ^ 31
    rw [hallocated]
    have := h.bound
    omega

end Table

namespace Call

variable {w w' : Table} {c : Call} {e : EntryId}

theorem exec_add_new {addr : Addr} {table : Bool} {m : Malloc}
    (h : ¬(w.buckets.isNone = true ∧ table = false)) :
    (add addr table (some m)).exec w = (w.addInt addr m).map Prod.snd := by
  rw [exec, if_neg h]

/-- A call keeps the entries owned, if the map is cleared only without entries. -/
theorem exec_owned (h : w.Owned) (hfresh : c.Fresh w) (hkept : c.Kept w) :
    ∃ w', c.exec w = .ok w' ∧ w'.Owned := by
  obtain ⟨m, xs, hc, hlive⟩ := h.chained
  cases c with
  | add addr table entry =>
    by_cases htable : w.buckets.isNone = true ∧ table = false
    · exact ⟨w, if_pos htable, h⟩
    cases entry with
    | none => exact ⟨_, if_neg htable, h.lazy⟩
    | some malloc =>
      rw [exec_add_new htable]
      by_cases ha : addr ∈ m
      · obtain ⟨ys, e, zs, hx, hea⟩ := hc.exists_split ha
        rw [hc.addInt_of_mem hx hea]
        exact ⟨_, rfl, h.lazy⟩
      · have hnew : ∀ e ∈ w.allocated, w.addr e ≠ addr := fun e he => by
          obtain ⟨i, hi⟩ := hlive e he
          exact hc.not_mem ha hi
        rw [hc.addInt_of_notMem ha (hfresh hnew)]
        exact ⟨_, rfl, h.lazy.added (hc.congr rfl rfl rfl rfl rfl rfl) hlive ha (hfresh hnew)
          (hkept hnew)⟩
  | pop addr =>
    rw [exec]
    by_cases ha : addr ∈ m
    · obtain ⟨ys, e, zs, hx, hea⟩ := hc.exists_split ha
      have he : e ∈ w.allocated := hc.allocated (w.index addr) e (by simp [hx])
      have hcount : 0 < w.count := h.count ▸ Int.natCast_pos.mpr (List.length_pos_of_mem he)
      rw [hc.popInt_of_mem hx hea (hc.buckets_ne_none ha) hcount]
      exact ⟨_, rfl, h.popped hc hlive hx hea⟩
    · rw [hc.popInt_of_notMem ha]
      exact ⟨w, rfl, h⟩
  | clear => exact ⟨_, rfl, .of_nil h.size rfl rfl hkept⟩
  | fini =>
    have hcount : w.count = 0 := by rw [h.count, show w.allocated = [] from hkept]; rfl
    exact ⟨_, rfl, .of_nil h.size rfl hcount hkept⟩

/-- Only a pop frees an entry, the one with the address, which is allocated until then. -/
theorem frees_eq (h : w.Owned) (hx : c.exec w = .ok w') (he : e ∈ c.frees w) :
    c.frees w = [e] ∧ e ∈ w.allocated ∧ w'.allocated = w.allocated.erase e := by
  obtain ⟨m, xs, hc, hlive⟩ := h.chained
  cases c with
  | add addr table entry => cases he
  | clear => cases he
  | fini => cases he
  | pop addr =>
    rw [exec] at hx
    by_cases ha : addr ∈ m
    · obtain ⟨ys, b, zs, hsplit, hba⟩ := hc.exists_split ha
      have hb : b ∈ w.allocated := hc.allocated (w.index addr) b (by simp [hsplit])
      have hcount : 0 < w.count := h.count ▸ Int.natCast_pos.mpr (List.length_pos_of_mem hb)
      have hfrees : (pop addr).frees w = [b] := by
        obtain ⟨heads, hsome⟩ := Option.ne_none_iff_exists'.mp (hc.buckets_ne_none ha)
        rw [frees, hsome, hc.seek_found hsplit hba]
        dsimp only
        rw [hc.deref_found hsplit, Option.toList_some]
      rw [hfrees, List.mem_singleton] at he
      subst he
      rw [hc.popInt_of_mem hsplit hba (hc.buckets_ne_none ha) hcount] at hx
      obtain rfl := Except.ok.inj hx
      exact ⟨hfrees, hb, congrArg (List.erase · e) Table.allocated_assign⟩
    · have hfrees : (pop addr).frees w = [] := by
        rw [frees, hc.seek_end ha]
        cases w.buckets with
        | none => rfl
        | some b =>
          dsimp only
          rw [hc.deref_end, Option.toList_none]
      rw [hfrees] at he
      cases he

end Call

/-- The maps that calls reach from a new one, where each call meets the condition `P` on the map
before it. -/
inductive Reached (P : Table → Call → Prop) (bucketSize : ℕ) : Table → Prop
  | init (entries : EntryId → Entry) (h : 0 < bucketSize) :
    Reached P bucketSize (init bucketSize entries)
  | step {w w' : Table} {c : Call} (hw : Reached P bucketSize w) (hfresh : c.Fresh w)
    (hP : P w c) (h : c.exec w = .ok w') : Reached P bucketSize w'

section Runs

variable {w : Table} {bucketSize : ℕ}

theorem Reached.owned (h : Reached (fun w c => c.Kept w) bucketSize w) : w.Owned := by
  induction h with
  | init entries hs => exact .of_nil hs rfl rfl rfl
  | @step w w' c _ hfresh hkept hx ih =>
    obtain ⟨z, hz, howned⟩ := c.exec_owned ih hfresh hkept
    rw [hx] at hz
    obtain rfl := Except.ok.inj hz
    exact howned

/-- While the map is cleared only without entries, each entry that is allocated can be reached, and
no entry is freed twice. -/
theorem entries_owned (h : Reached (fun w c => c.Kept w) bucketSize w) :
    (∀ e ∈ w.allocated, w.Reachable e) ∧
      ∀ c : Call, c.Fresh w → c.Kept w → ∃ w', c.exec w = .ok w' ∧
        (c.frees w).Nodup ∧
        (∀ e ∈ c.frees w, e ∈ w.allocated ∧ e ∉ w'.allocated) ∧
        (c = .clear ∨ c = .fini → w'.allocated = []) := by
  refine ⟨fun e he => h.owned.reachable he, fun c hfresh hkept => ?_⟩
  obtain ⟨w', hx, -⟩ := c.exec_owned h.owned hfresh hkept
  refine ⟨w', hx, ?_, fun e he => ?_, ?_⟩
  · cases hf : c.frees w with
    | nil => exact List.nodup_nil
    | cons e es =>
      have heq := (Call.frees_eq h.owned hx (e := e) (by simp [hf])).1
      rw [hf] at heq
      rw [heq]
      exact List.nodup_singleton e
  · obtain ⟨-, hlive, hfreed⟩ := Call.frees_eq h.owned hx he
    rw [hfreed]
    exact ⟨hlive, h.owned.nodup.not_mem_erase⟩
  · rintro (rfl | rfl)
    · obtain rfl := Except.ok.inj hx
      exact hkept
    · obtain rfl := Except.ok.inj hx
      exact hkept

/-- The entry of an address is freed before the map is cleared. -/
theorem entries_owned_popped : ∃ w, Reached (fun w c => c.Kept w) 4 w ∧
    (Call.pop (.ip4 7)).frees w = [0] ∧ ∀ e ∈ w.allocated, w.Reachable e := by
  have h0 : Reached (fun w c => c.Kept w) 4 _ := .init (fun _ => ⟨none, .ip4 0, 0⟩) (by decide)
  have h1 := h0.step (c := .add (.ip4 7) true (some ⟨0, 5⟩)) (by rintro _ ⟨⟩)
    (fun _ => by decide) rfl
  exact ⟨_, h1, rfl, (entries_owned h1).1⟩

/-- An entry that is not popped is lost when the map is cleared. -/
theorem not_entries_owned_cleared : ¬∀ (bucketSize : ℕ) (w : Table),
    Reached (fun _ _ => True) bucketSize w → ∀ e ∈ w.allocated, w.Reachable e := by
  intro h
  have h0 : Reached (fun _ _ => True) 4 _ := .init (fun _ => ⟨none, .ip4 0, 0⟩) (by decide)
  have h1 := h0.step (c := .add (.ip4 7) true (some ⟨0, 5⟩)) (by rintro _ ⟨⟩) trivial rfl
  have h2 := h1.step (c := .clear) trivial trivial rfl
  obtain ⟨i, -, xs, hchain, he⟩ := h 4 _ h2 0 List.mem_cons_self
  rw [hchain.eq_nil] at he
  cases he

end Runs

end FrameTransporter.IpHashMap
