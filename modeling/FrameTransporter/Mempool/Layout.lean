import FrameTransporter.Mempool.Pool

/-! # The layout of a frame

The table of vectors grows down from the end of the memory that the vectors
address. A frame is laid out when every vector has its position within its limit
and its limit within its capacity, when no vector reaches the table, and when the
cursor is within the table. The operations on frames and vectors keep that, each
under a condition on its arguments and on the frame before it.
-/

namespace FrameTransporter

/-- The operations on a vector. -/
inductive VecOp
  | setPosition (position : ℕ)
  | advance (delta : ℕ)
  | forward (delta : ℕ)
  | pos (position : ℕ)
  | flip
  | trim
  | extend (size : ℕ)
  | cat (bytes : List UInt8)
  | strcat (text : List UInt8)
  | vsprintf (text : Option (List UInt8))

/-- The operations on a frame, those on the vector at an index included. -/
inductive FrameOp
  | formatEmpty
  | formatSimple
  | createVec (offset capacity : ℕ)
  | appendVec (capacity : ℕ)
  | appendMaxVec
  | removeLastVec
  | nextVec
  | prevVec
  | resetVec
  | flip
  | vec (i : ℕ) (op : VecOp)

namespace Frame

variable (x : Frame)

/-- Put a vector at an index of the table. -/
def setVec (i : ℕ) (v : Vec) : Frame := x.modifyVec i fun _ => v

end Frame

/-- An operation on the vector `v` at an index. One that returns false is done too. -/
def VecOp.exec (x : Frame) (i : ℕ) (v : Vec) : VecOp → Except Fault Frame
  | setPosition position => .ok (x.setVec i ((v.setPosition position).getD v))
  | advance delta => (v.advance delta).map (x.setVec i)
  | forward delta => (v.forward delta).map (x.setVec i)
  | pos position => (v.pos position).map (x.setVec i)
  | flip => .ok (x.setVec i v.flip)
  | trim => .ok (x.setVec i v.trim)
  | extend size => .ok (x.setVec i ((v.extend size).getD v))
  | cat bytes => .ok (x.cat i v bytes).2
  | strcat text => .ok (x.strcat i v text).2
  | vsprintf text => .ok (x.vsprintf i v text).2

/-- An operation on a frame. One that returns null or false is done too. -/
def FrameOp.exec (x : Frame) : FrameOp → Except Fault Frame
  | formatEmpty => .ok x.formatEmpty
  | formatSimple => x.formatSimple
  | createVec offset capacity => (x.createVec offset capacity).map Prod.snd
  | appendVec capacity => (x.appendVec capacity).map Prod.snd
  | appendMaxVec => x.appendMaxVec
  | removeLastVec => .ok x.removeLastVec.2
  | nextVec => x.nextVec.map Prod.snd
  | prevVec => .ok x.prevVec
  | resetVec => .ok x.resetVec
  | flip => .ok x.flip
  | vec i op =>
    match x.vecs[i]? with
    | none => .error (.abort .vecNotNull)
    | some v => op.exec x i v

theorem FrameOp.exec_vec (x : Frame) (i : ℕ) (op : VecOp) :
    (vec i op).exec x = match x.vecs[i]? with
      | none => .error (.abort .vecNotNull)
      | some v => op.exec x i v := rfl

/-- The frames that operations reach from one that has just been initialised, where
every operation meets the condition `P` in the frame that it is done on. -/
inductive Built (P : Frame → FrameOp → Prop) : Frame → Prop
  | init {x : Frame} (hv : x.vecs = []) (hp : x.vecPosition = 0) : Built P x
  | step {x y : Frame} {op : FrameOp} (hx : Built P x) (hop : P x op) (h : op.exec x = .ok y) :
    Built P y

/-- What holds at the start and is kept by the operations that meet the condition. -/
theorem Built.invariant {P : Frame → FrameOp → Prop} {I : Frame → Prop} {x : Frame}
    (hx : Built P x) (init : ∀ x : Frame, x.vecs = [] → x.vecPosition = 0 → I x)
    (step : ∀ x y op, I x → P x op → FrameOp.exec x op = .ok y → I y) : I x := by
  induction hx with
  | init hv hp => exact init _ hv hp
  | step _ hop h ih => exact step _ _ _ ih hop h

/-- The order of a vector's fields. -/
structure Vec.Ordered (v : Vec) : Prop where
  position : v.position ≤ v.limit
  limit : v.limit ≤ v.capacity

namespace Frame

/-- The frame is laid out as its documentation says. -/
structure LaidOut (x : Frame) : Prop where
  ordered : ∀ v ∈ x.vecs, v.Ordered
  inside : ∀ v ∈ x.vecs, v.offset + v.capacity + SIZEOF_VEC * x.vecLimit ≤ x.capacity
  cursor : x.vecPosition ≤ x.vecLimit

/-- A new table entry is refused, or it is placed clear of the vectors that are there
and its own end is computed without overflow. -/
def Clear (x : Frame) (offset capacity : ℕ) : Prop :=
  toSize x.room < u64 (offset + capacity) ∨
    offset + capacity < 2 ^ 64 ∧ ∀ v ∈ x.vecs, (v.offset + v.capacity : ℤ) ≤ x.room

end Frame

/-- When an operation keeps the order of the fields of a vector. -/
def VecOp.Sound (v : Vec) : VecOp → Prop
  | pos position => u16 position ≤ v.limit
  | extend size => v.limit + size < 2 ^ 64
  | cat bytes => v.position + bytes.length < 2 ^ 64
  | strcat text => v.position + text.length < 2 ^ 64
  | vsprintf text => v.position < v.limit ∨ text = some []
  | _ => True

/-- When an operation keeps the layout of a frame. -/
def FrameOp.Sound (x : Frame) : FrameOp → Prop
  | createVec offset capacity => x.Clear offset capacity
  | appendVec capacity => x.Clear x.appendOffset capacity
  | appendMaxVec => x.Clear x.appendOffset 0
  | removeLastVec => x.vecPosition = x.vecLimit → x.vecLimit = 0
  | vec i op => ∀ v, x.vecs[i]? = some v → op.Sound v
  | _ => True

section VecOp

variable {x y : Frame} {i : ℕ} {v w : Vec} {op : VecOp}

theorem u16_le (n : ℕ) : u16 n ≤ n := Nat.mod_le _ _

theorem modify_eq_set_of_getElem? {α : Type*} {l : List α} {i : ℕ} {a : α} (g : α → α)
    (h : l[i]? = some a) : l.modify i g = l.set i (g a) := by
  obtain ⟨hi, rfl⟩ := List.getElem?_eq_some_iff.mp h
  rw [List.modify_eq_take_cons_drop hi, List.set_eq_take_append_cons_drop, if_pos hi]

theorem set_getElem? {α : Type*} {l : List α} {i : ℕ} {a : α} (h : l[i]? = some a) :
    l.set i a = l := by
  obtain ⟨hi, rfl⟩ := List.getElem?_eq_some_iff.mp h
  exact List.set_getElem_self hi

theorem map_ok {α β : Type} {r : Except Fault α} {g : α → β} {b : β} (h : r.map g = .ok b) :
    ∃ a, r = .ok a ∧ g a = b := by
  cases r with
  | error e => cases h
  | ok a => exact ⟨a, rfl, Except.ok.inj h⟩

/-- The frame after a change of one vector: nothing else about its table changes. -/
structure Frame.Sets (x : Frame) (i : ℕ) (v : Vec) (y : Frame) : Prop where
  vecs : y.vecs = x.vecs.set i v
  capacity : y.capacity = x.capacity
  cursor : y.vecPosition = x.vecPosition

theorem Frame.sets_setVec (x : Frame) (i : ℕ) (hv : x.vecs[i]? = some v) (w : Vec) :
    x.Sets i w (x.setVec i w) :=
  ⟨modify_eq_set_of_getElem? _ hv, rfl, rfl⟩

theorem Frame.sets_self (hv : x.vecs[i]? = some v) (hx : y.vecs = x.vecs)
    (hc : y.capacity = x.capacity) (hp : y.vecPosition = x.vecPosition) : x.Sets i v y :=
  ⟨hx.trans (set_getElem? hv).symm, hc, hp⟩

/-- The vector with another position. -/
def Vec.at (v : Vec) (position : ℕ) : Vec := { v with position }

theorem Vec.setPosition_eq (v : Vec) (position : ℕ) :
    ∃ p, (v.setPosition position).getD v = v.at p ∧ (v.position ≤ v.limit → p ≤ v.limit) := by
  unfold Vec.setPosition
  split_ifs with hl hc
  · exact ⟨v.position, rfl, id⟩
  · exact ⟨v.position, rfl, id⟩
  · exact ⟨u16 position, rfl, fun _ => (u16_le _).trans (not_lt.mp hl)⟩

theorem Vec.advance_ok {delta : ℕ} (h : v.advance delta = .ok w) :
    ∃ p, w = v.at p ∧ p ≤ v.limit := by
  unfold Vec.advance at h
  split_ifs at h with hl hc
  cases h
  exact ⟨_, rfl, not_lt.mp hl⟩

theorem Vec.forward_ok {delta : ℕ} (h : v.forward delta = .ok w) :
    ∃ p, w = v.at p ∧ p ≤ v.limit := by
  unfold Vec.forward at h
  dsimp only at h
  split_ifs at h with hl hc
  cases h
  exact ⟨_, rfl, (u16_le _).trans (not_lt.mp hl)⟩

theorem Vec.pos_ok {position : ℕ} (h : v.pos position = .ok w) : w = v.at (u16 position) := by
  unfold Vec.pos at h
  split_ifs at h
  cases h
  rfl

theorem Frame.cat_sets (hv : x.vecs[i]? = some v) (bytes : List UInt8) :
    ∃ p, x.Sets i (v.at p) (x.cat i v bytes).2 ∧
      (v.position + bytes.length < 2 ^ 64 → v.position ≤ v.limit → p ≤ v.limit) := by
  unfold Frame.cat
  split_ifs with hl
  · exact ⟨v.position, sets_self hv rfl rfl rfl, fun _ => id⟩
  · refine ⟨_, ⟨modify_eq_set_of_getElem? _ hv, rfl, rfl⟩, fun hb _ => ?_⟩
    rw [u64, Nat.mod_eq_of_lt hb] at hl
    exact (u16_le _).trans (not_lt.mp hl)

theorem Frame.vsprintf_sets (hv : x.vecs[i]? = some v) (text : Option (List UInt8)) :
    ∃ p, x.Sets i (v.at p) (x.vsprintf i v text).2 ∧
      ((VecOp.vsprintf text).Sound v → v.position ≤ v.limit → p ≤ v.limit) := by
  cases text with
  | none => exact ⟨v.position, sets_self hv rfl rfl rfl, fun _ => id⟩
  | some text =>
    unfold Frame.vsprintf
    dsimp only
    generalize hy : (if toSize (v.limit - v.position - 1 : ℤ) = 0 then x
      else x.write (v.offset + v.position) _) = y
    have hsame : y.vecs = x.vecs ∧ y.capacity = x.capacity ∧ y.vecPosition = x.vecPosition := by
      subst hy
      split_ifs <;> exact ⟨rfl, rfl, rfl⟩
    obtain ⟨hvecs, hcap, hcur⟩ := hsame
    split_ifs with hl
    · exact ⟨v.position, sets_self hv hvecs hcap hcur, fun _ => id⟩
    · refine ⟨_, ⟨?_, hcap, hcur⟩, fun hs hle => (u16_le (v.position + text.length)).trans ?_⟩
      · dsimp only [Frame.modifyVec]
        rw [hvecs]
        exact modify_eq_set_of_getElem? _ hv
      · rcases hs with hlt | hnil
        · rw [show (v.limit - v.position - 1 : ℤ) = v.limit - (v.position + 1 : ℕ) by omega,
            toSize] at hl
          split_ifs at hl <;> omega
        · obtain rfl := Option.some.inj hnil
          simpa using hle

/-- What an operation does to the vector that it is done on. -/
theorem VecOp.exec_cases (hv : x.vecs[i]? = some v) (h : op.exec x i v = .ok y) :
    ∃ w, x.Sets i w y ∧
      ((∃ p, w = v.at p ∧ (op.Sound v → v.position ≤ v.limit → p ≤ v.limit)) ∨
        op = .flip ∧ w = v.flip ∨ op = .trim ∧ w = v.trim ∨
        ∃ size, op = .extend size ∧ w = (v.extend size).getD v) := by
  cases op with
  | setPosition position =>
    cases h
    obtain ⟨p, hp, hle⟩ := v.setPosition_eq position
    exact ⟨_, x.sets_setVec i hv _, .inl ⟨p, hp, fun _ => hle⟩⟩
  | advance delta =>
    obtain ⟨w, hw, rfl⟩ := map_ok h
    obtain ⟨p, hp, hle⟩ := Vec.advance_ok hw
    exact ⟨w, x.sets_setVec i hv _, .inl ⟨p, hp, fun _ _ => hle⟩⟩
  | forward delta =>
    obtain ⟨w, hw, rfl⟩ := map_ok h
    obtain ⟨p, hp, hle⟩ := Vec.forward_ok hw
    exact ⟨w, x.sets_setVec i hv _, .inl ⟨p, hp, fun _ _ => hle⟩⟩
  | pos position =>
    obtain ⟨w, hw, rfl⟩ := map_ok h
    exact ⟨w, x.sets_setVec i hv _, .inl ⟨_, Vec.pos_ok hw, fun hs _ => hs⟩⟩
  | flip =>
    cases h
    exact ⟨_, x.sets_setVec i hv _, .inr (.inl ⟨rfl, rfl⟩)⟩
  | trim =>
    cases h
    exact ⟨_, x.sets_setVec i hv _, .inr (.inr (.inl ⟨rfl, rfl⟩))⟩
  | extend size =>
    cases h
    exact ⟨_, x.sets_setVec i hv _, .inr (.inr (.inr ⟨size, rfl, rfl⟩))⟩
  | cat bytes =>
    cases h
    obtain ⟨p, hsets, hle⟩ := Frame.cat_sets hv bytes
    exact ⟨_, hsets, .inl ⟨p, rfl, hle⟩⟩
  | strcat text =>
    cases h
    obtain ⟨p, hsets, hle⟩ := Frame.cat_sets hv (text.takeWhile (· ≠ 0))
    refine ⟨_, hsets, .inl ⟨p, rfl, fun hs => hle (lt_of_le_of_lt ?_ hs)⟩⟩
    exact Nat.add_le_add_left (List.takeWhile_sublist _).length_le _
  | vsprintf text =>
    cases h
    obtain ⟨p, hsets, hle⟩ := Frame.vsprintf_sets hv text
    exact ⟨_, hsets, .inl ⟨p, rfl, hle⟩⟩

end VecOp

namespace Frame

section LaidOut

variable {x y : Frame} {i offset capacity : ℕ} {r : Option ℕ} {v w : Vec} {op : VecOp}

/-- The capacities are as wide as the fields that keep them. -/
def Narrow (x : Frame) : Prop := ∀ v ∈ x.vecs, v.capacity < 2 ^ 16

theorem u16_lt (n : ℕ) : u16 n < 2 ^ 16 := Nat.mod_lt _ (by decide)

theorem LaidOut.sets (h : x.LaidOut) (hv : x.vecs[i]? = some v) (hy : x.Sets i w y)
    (ho : w.offset = v.offset) (hc : w.capacity ≤ v.capacity) (hw : w.Ordered) : y.LaidOut := by
  have hlimit : y.vecLimit = x.vecLimit := by rw [vecLimit, hy.vecs, List.length_set, vecLimit]
  refine ⟨fun u hu => ?_, fun u hu => ?_, ?_⟩
  · rw [hy.vecs] at hu
    rcases List.mem_or_eq_of_mem_set hu with hu | rfl
    · exact h.ordered u hu
    · exact hw
  · rw [hy.vecs] at hu
    rw [hlimit, hy.capacity]
    rcases List.mem_or_eq_of_mem_set hu with hu | rfl
    · exact h.inside u hu
    · have := h.inside v (List.mem_of_getElem? hv)
      omega
  · rw [hlimit, hy.cursor]
    exact h.cursor

theorem Narrow.sets (h : x.Narrow) (hv : x.vecs[i]? = some v) (hy : x.Sets i w y)
    (hc : w.capacity ≤ v.capacity) : y.Narrow := by
  intro u hu
  rw [hy.vecs] at hu
  rcases List.mem_or_eq_of_mem_set hu with hu | rfl
  · exact h u hu
  · exact hc.trans_lt (h v (List.mem_of_getElem? hv))

theorem LaidOut.vec (h : x.LaidOut) (hn : x.Narrow) (hv : x.vecs[i]? = some v)
    (hs : op.Sound v) (hy : op.exec x i v = .ok y) : y.LaidOut ∧ y.Narrow := by
  have hmem := List.mem_of_getElem? hv
  obtain ⟨hpos, hlim⟩ := h.ordered v hmem
  obtain ⟨w, hsets, ⟨p, rfl, hp⟩ | ⟨-, rfl⟩ | ⟨-, rfl⟩ | ⟨size, rfl, rfl⟩⟩ := VecOp.exec_cases hv hy
  · exact ⟨h.sets hv hsets rfl le_rfl ⟨hp hs hpos, hlim⟩, hn.sets hv hsets le_rfl⟩
  · exact ⟨h.sets hv hsets rfl le_rfl ⟨Nat.zero_le _, hpos.trans hlim⟩, hn.sets hv hsets le_rfl⟩
  · have hc : v.trim.capacity ≤ v.capacity := hpos.trans hlim
    exact ⟨h.sets hv hsets rfl hc ⟨le_rfl, le_rfl⟩, hn.sets hv hsets hc⟩
  · have hnarrow := hn v hmem
    unfold Vec.extend at hsets
    rw [u64, Nat.mod_eq_of_lt hs] at hsets
    split_ifs at hsets with hc
    · exact ⟨h.sets hv hsets rfl le_rfl ⟨hpos, hlim⟩, hn.sets hv hsets le_rfl⟩
    · have hu : u16 (v.limit + size) = v.limit + size := Nat.mod_eq_of_lt (by omega)
      refine ⟨h.sets hv hsets rfl le_rfl ⟨?_, ?_⟩, hn.sets hv hsets le_rfl⟩
      · simp only [Option.getD_some, hu]
        omega
      · simp only [Option.getD_some, hu]
        omega

theorem LaidOut.push (h : x.LaidOut) (hx : ∀ v ∈ x.vecs, (v.offset + v.capacity : ℤ) ≤ x.room)
    (hv : w.Ordered) (hw : (w.offset + w.capacity : ℤ) ≤ x.room) :
    LaidOut { x with vecs := x.vecs ++ [w] } := by
  have hlimit : vecLimit { x with vecs := x.vecs ++ [w] } = x.vecLimit + 1 := by
    simp [vecLimit]
  refine ⟨fun u hu => ?_, fun u hu => ?_, ?_⟩
  · rcases List.mem_append.mp hu with hu | hu
    · exact h.ordered u hu
    · rw [List.mem_singleton.mp hu]
      exact hv
  · rw [hlimit]
    have hroom : (u.offset + u.capacity : ℤ) ≤ x.room := by
      rcases List.mem_append.mp hu with hu | hu
      · exact hx u hu
      · rw [List.mem_singleton.mp hu]
        exact hw
    change u.offset + u.capacity + SIZEOF_VEC * (x.vecLimit + 1) ≤ x.capacity
    simp only [room, SIZEOF_VEC] at hroom ⊢
    omega
  · rw [hlimit]
    exact h.cursor.trans (Nat.le_succ _)

theorem Narrow.push (h : x.Narrow) (hw : w.capacity < 2 ^ 16) :
    Narrow { x with vecs := x.vecs ++ [w] } := by
  intro u hu
  rcases List.mem_append.mp hu with hu | hu
  · exact h u hu
  · rw [List.mem_singleton.mp hu]
    exact hw

theorem LaidOut.createVec (h : x.LaidOut) (hn : x.Narrow) (hc : x.Clear offset capacity)
    (hy : x.createVec offset capacity = .ok (r, y)) : y.LaidOut ∧ y.Narrow := by
  rcases createVec_ok hy with ⟨-, rfl, -⟩ | ⟨-, rfl, hsize, hpos⟩
  · exact ⟨h, hn⟩
  · rcases hc with hno | ⟨hlt, hclear⟩
    · rw [toSize, if_pos hpos.le] at hno
      omega
    · rw [u64, Nat.mod_eq_of_lt hlt] at hsize
      have ho := u16_le offset
      have hcap := u16_le capacity
      exact ⟨h.push hclear ⟨Nat.zero_le _, le_rfl⟩ (by push_cast; omega), hn.push (u16_lt _)⟩

/-- A frame that has just been initialised or formatted. -/
theorem laidOut_nil (hv : x.vecs = []) (hp : x.vecPosition = 0) : x.LaidOut ∧ x.Narrow := by
  simp only [Narrow, hv]
  refine ⟨⟨?_, ?_, hp.trans_le (Nat.zero_le _)⟩, by rintro _ ⟨⟩⟩
  · simp [hv]
  · simp [hv]

theorem appendMaxVec_ok (hy : x.appendMaxVec = .ok y) :
    u64 (x.appendOffset + 0) ≤ x.room ∧ 0 < x.room ∧
      y = { x with vecs := x.vecs ++ [⟨u16 x.appendOffset, 0,
        u16 (toSize (x.room - u16 x.appendOffset)),
        u16 (toSize (x.room - u16 x.appendOffset))⟩] } := by
  unfold Frame.appendMaxVec appendVec at hy
  cases hz : x.createVec x.appendOffset 0 with
  | error e =>
    rw [hz] at hy
    cases hy
  | ok r =>
    obtain ⟨i, z⟩ := r
    rw [hz] at hy
    rcases createVec_ok hz with ⟨rfl, -, -⟩ | ⟨rfl, rfl, hsize, hpos⟩
    · cases hy
    · cases hy
      refine ⟨hsize, hpos, ?_⟩
      -- The entry that is changed is the one that has just been put behind the others.
      change Frame.mk _ _ _ ((x.vecs ++ [_]).modify x.vecs.length _) _ _ _ _ _ _ = _
      rw [modify_concat]
      rfl

theorem LaidOut.appendMaxVec (h : x.LaidOut) (hn : x.Narrow) (hc : x.Clear x.appendOffset 0)
    (hy : x.appendMaxVec = .ok y) : y.LaidOut ∧ y.Narrow := by
  obtain ⟨hsize, hpos, rfl⟩ := appendMaxVec_ok hy
  rcases hc with hno | ⟨hlt, hclear⟩
  · rw [toSize, if_pos hpos.le] at hno
    omega
  · rw [u64, Nat.mod_eq_of_lt hlt] at hsize
    have ho := u16_le x.appendOffset
    have hr := u16_le (toSize (x.room - u16 x.appendOffset))
    have hroom : (toSize (x.room - u16 x.appendOffset) : ℤ) = x.room - u16 x.appendOffset := by
      rw [toSize, if_pos (by omega)]
      omega
    exact ⟨h.push hclear ⟨Nat.zero_le _, le_rfl⟩ (by dsimp only; omega), hn.push (u16_lt _)⟩

theorem LaidOut.formatSimple (hy : x.formatSimple = .ok y) : y.LaidOut ∧ y.Narrow := by
  obtain ⟨h, hn⟩ := laidOut_nil (x := x.formatEmpty) rfl rfl
  unfold Frame.formatSimple at hy
  cases hz : x.formatEmpty.createVec 0 (toSize (x.capacity - SIZEOF_VEC)) with
  | error e =>
    rw [hz] at hy
    cases hy
  | ok r =>
    rw [hz] at hy
    cases hy
    rcases createVec_ok hz with ⟨-, hr, -⟩ | ⟨-, hr, -, hpos⟩
    · rw [hr]
      exact ⟨h, hn⟩
    · have hroom : x.formatEmpty.room = x.capacity - SIZEOF_VEC := by
        simp [room, vecLimit, Frame.formatEmpty]
      have hu := u16_le (toSize (x.capacity - SIZEOF_VEC))
      have hsize : (toSize (x.capacity - SIZEOF_VEC) : ℤ) = x.capacity - SIZEOF_VEC := by
        rw [toSize, if_pos (by omega)]
        omega
      rw [hr]
      refine ⟨h.push (by rintro _ ⟨⟩) ⟨Nat.zero_le _, le_rfl⟩ ?_, hn.push (u16_lt _)⟩
      rw [hroom]
      simp only [u16, Nat.zero_mod] at hu ⊢
      omega

theorem LaidOut.removeLastVec (h : x.LaidOut) (hn : x.Narrow)
    (hs : x.vecPosition = x.vecLimit → x.vecLimit = 0) :
    x.removeLastVec.2.LaidOut ∧ x.removeLastVec.2.Narrow := by
  unfold Frame.removeLastVec
  split_ifs with hz
  · exact ⟨h, hn⟩
  · have hlimit : vecLimit { x with vecs := x.vecs.dropLast } = x.vecLimit - 1 :=
      List.length_dropLast
    refine ⟨⟨fun v hv => ?_, fun v hv => ?_, ?_⟩, fun v hv => ?_⟩
    · exact h.ordered v (List.dropLast_subset _ hv)
    · have := h.inside v (List.dropLast_subset _ hv)
      rw [hlimit]
      dsimp only [SIZEOF_VEC] at this ⊢
      omega
    · have := h.cursor
      rw [hlimit]
      dsimp only
      omega
    · exact hn v (List.dropLast_subset _ hv)

theorem LaidOut.cursor_le (h : x.LaidOut) (hn : x.Narrow) {n : ℕ} (hle : n ≤ x.vecLimit) :
    LaidOut { x with vecPosition := n } ∧ Narrow { x with vecPosition := n } :=
  ⟨⟨h.ordered, h.inside, hle⟩, hn⟩

theorem LaidOut.flip (h : x.LaidOut) (hn : x.Narrow) : x.flip.LaidOut ∧ x.flip.Narrow := by
  have hlimit : x.flip.vecLimit = x.vecLimit := List.length_map _
  refine ⟨⟨fun w hw => ?_, fun w hw => ?_, Nat.zero_le _⟩, fun w hw => ?_⟩
  · obtain ⟨v, hv, rfl⟩ := List.mem_map.mp hw
    obtain ⟨hpos, hlim⟩ := h.ordered v hv
    exact ⟨Nat.zero_le _, hpos.trans hlim⟩
  · obtain ⟨v, hv, rfl⟩ := List.mem_map.mp hw
    rw [hlimit]
    exact h.inside v hv
  · obtain ⟨v, hv, rfl⟩ := List.mem_map.mp hw
    exact hn v hv

theorem LaidOut.nextVec {b : Bool} (h : x.LaidOut) (hn : x.Narrow) (hy : x.nextVec = .ok (b, y)) :
    y.LaidOut ∧ y.Narrow := by
  unfold Frame.nextVec at hy
  split_ifs at hy with heq hlt
  · cases hy
    exact ⟨h, hn⟩
  · cases hy
    have := h.cursor
    exact h.cursor_le hn (by omega)

theorem LaidOut.prevVec (h : x.LaidOut) (hn : x.Narrow) :
    x.prevVec.LaidOut ∧ x.prevVec.Narrow := by
  unfold Frame.prevVec
  split_ifs with hz
  · exact ⟨h, hn⟩
  · exact h.cursor_le hn ((Nat.sub_le _ _).trans h.cursor)

/-- An operation that meets its condition keeps the layout. -/
theorem LaidOut.exec {op : FrameOp} (h : x.LaidOut) (hn : x.Narrow) (hs : op.Sound x)
    (hy : op.exec x = .ok y) : y.LaidOut ∧ y.Narrow := by
  cases op with
  | formatEmpty =>
    cases hy
    exact laidOut_nil rfl rfl
  | formatSimple => exact LaidOut.formatSimple hy
  | createVec offset capacity =>
    obtain ⟨⟨r, z⟩, hz, rfl⟩ := map_ok hy
    exact h.createVec hn hs hz
  | appendVec capacity =>
    obtain ⟨⟨r, z⟩, hz, rfl⟩ := map_ok hy
    exact h.createVec hn hs hz
  | appendMaxVec => exact h.appendMaxVec hn hs hy
  | removeLastVec =>
    cases hy
    exact h.removeLastVec hn hs
  | nextVec =>
    obtain ⟨⟨b, z⟩, hz, rfl⟩ := map_ok hy
    exact h.nextVec hn hz
  | prevVec =>
    cases hy
    exact h.prevVec hn
  | resetVec =>
    cases hy
    exact h.cursor_le hn (Nat.zero_le _)
  | flip =>
    cases hy
    exact h.flip hn
  | vec i op =>
    rw [FrameOp.exec_vec] at hy
    cases hv : x.vecs[i]? with
    | none =>
      rw [hv] at hy
      cases hy
    | some v =>
      rw [hv] at hy
      exact h.vec hn hv (hs v hv) hy

end LaidOut

end Frame

section Built

variable {x : Frame}

/-- A frame is laid out after every run of operations that each meet their condition. -/
theorem built_laidOut (hx : Built FrameOp.Sound x) : x.LaidOut :=
  (hx.invariant (fun _ => Frame.laidOut_nil) fun _ _ _ h hs hy => h.1.exec h.2 hs hy).1

/-- Two vectors, the first one with bytes in it. -/
theorem built_laidOut_append :
    Frame.LaidOut { Pool.frameInit none with vecs := [⟨0, 3, 5, 5⟩, ⟨5, 0, 7, 7⟩] } := by
  have h0 : Built FrameOp.Sound (Pool.frameInit none) := .init rfl rfl
  have h1 := @Built.step _ _ _ (.appendVec 5) h0 (.inr ⟨by decide, by rintro _ ⟨⟩⟩) rfl
  have h2 := @Built.step _ _ _ (.vec 0 (.advance 3)) h1 (fun v hv => trivial) rfl
  have h3 := @Built.step _ _ _ (.appendVec 7) h2 (.inr ⟨by decide, by decide⟩) rfl
  exact built_laidOut h3

/-- A second vector that is created behind a simple format puts its table entry into the
first one. -/
theorem not_built_laidOut_all :
    ¬∀ x : Frame, Built (fun _ _ => True) x → x.LaidOut := by
  intro h
  have h0 : Built (fun _ _ => True) (Pool.frameInit none) := .init rfl rfl
  have h1 := @Built.step _ _ _ .formatSimple h0 trivial rfl
  have h2 := @Built.step _ _ _ (.createVec 0 1) h1 trivial rfl
  exact absurd ((h _ h2).inside ⟨0, 0, 20464, 20464⟩ (by decide)) (by decide)

end Built

end FrameTransporter
