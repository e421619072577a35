import FrameTransporter.Basic
import FrameTransporter.Intrusive.Memory

/-! # Memory frames and their vectors

A frame is a block of bytes with a table of vectors at its end. The model keeps
the vectors as a list, in table order, so `vec_limit` is its length, and the
bytes as a memory. Sizes are numbers that are cut to the width of the field they
are stored into.
-/

namespace FrameTransporter

open Intrusive

/-- `MEMPAGE_SIZE`. -/
def MEMPAGE_SIZE : ℕ := 4096

/-- `FRAME_SIZE`, the capacity of a pool frame. -/
def FRAME_SIZE : ℕ := 5 * 4096

/-- `sizeof(struct ft_vec)`: a pointer and four 16-bit numbers. -/
def SIZEOF_VEC : ℕ := 16

/-- A number stored into a `uint16_t`. -/
def u16 (n : ℕ) : ℕ := n % 2 ^ 16

/-- A number computed as a `size_t`. -/
def u64 (n : ℕ) : ℕ := n % 2 ^ 64

/-- A signed 64-bit number taken as a `size_t`. -/
def toSize (z : ℤ) : ℕ := if 0 ≤ z then z.toNat else (2 ^ 64 + z).toNat

theorem toSize_sub {a b : ℕ} (h : b ≤ a) : toSize (a - b) = a - b := by
  rw [toSize, if_pos (by omega)]
  omega

inductive FrameType
  | free
  | endOfStream
  | rawData
  | log
  | other (n : ℕ)
  deriving DecidableEq, Repr

structure Vec where
  offset : ℕ
  position : ℕ
  limit : ℕ
  capacity : ℕ
  deriving DecidableEq, Repr

namespace Vec

/-- `ft_vec_advance`; `ft_vec_forward` makes the same assertions before its own tests. -/
def advance (v : Vec) (delta : ℕ) : Except Fault Vec :=
  if v.limit < v.position + delta then .error (.abort .advanceWithinLimit)
  else if v.capacity < v.position + delta then .error (.abort .advanceWithinCapacity)
  else .ok { v with position := v.position + delta }

/-- `ft_vec_forward`, with the new position as a `size_t`. -/
def forward (v : Vec) (delta : ℕ) : Except Fault Vec :=
  let position := u64 (v.position + delta)
  if v.limit < position then .error (.abort .advanceWithinLimit)
  else if v.capacity < position then .error (.abort .advanceWithinCapacity)
  else .ok { v with position := u16 position }

/-- `ft_vec_pos`, which tests the position that the vector has. -/
def pos (v : Vec) (position : ℕ) : Except Fault Vec :=
  if v.limit < v.position then .error (.abort .positionWithinLimit)
  else if v.capacity < v.position then .error (.abort .positionWithinCapacity)
  else .ok { v with position := u16 position }

/-- `ft_vec_set_position`, null if it returns false. -/
def setPosition (v : Vec) (position : ℕ) : Option Vec :=
  if v.limit < position then none
  else if v.capacity < position then none
  else some { v with position := u16 position }

/-- `ft_vec_extend`, null if it returns false. -/
def extend (v : Vec) (size : ℕ) : Option Vec :=
  if v.capacity < u64 (v.limit + size) then none else some { v with limit := u16 (v.limit + size) }

/-- `ft_vec_flip`. -/
def flip (v : Vec) : Vec := { v with limit := v.position, position := 0 }

/-- `ft_vec_trim`. -/
def trim (v : Vec) : Vec := { v with limit := v.position, capacity := v.position }

end Vec

theorem modify_concat {α : Type*} (l : List α) (a : α) (g : α → α) :
    (l ++ [a]).modify l.length g = l ++ [g a] := by
  induction l with
  | nil => rfl
  | cons b l ih => simp [ih]

structure Frame where
  next : Option FrameId
  type : FrameType
  vecPosition : ℕ
  vecs : List Vec
  msgControl : Bool
  addrlen : ℕ
  lastSeenByFile : Option String
  lastSeenByLine : ℕ
  data : ℕ → UInt8
  capacity : ℕ

namespace Frame

variable (f : Frame)

def vecLimit : ℕ := f.vecs.length

/-- The bytes `[offset + position, offset + limit)` of a vector. -/
def remainingBytes (v : Vec) : List UInt8 :=
  slice f.data (v.offset + v.position) (v.limit - v.position)

/-- The bytes `[offset, offset + position)` of a vector. -/
def receivedBytes (v : Vec) : List UInt8 := slice f.data v.offset v.position

/-- The bytes of the vectors from the cursor on that are yet to be written. -/
def pendingBytes : List UInt8 := (f.vecs.drop f.vecPosition).flatMap f.remainingBytes

/-- The bytes that were read into the vectors. -/
def contents : List UInt8 := f.vecs.flatMap f.receivedBytes

/-- `ft_frame_pos`. -/
def pos : ℕ := (f.vecs.map Vec.position).sum

/-- `ft_frame_len`. -/
def len : ℕ := (f.vecs.map fun v => v.limit - v.position).sum

/-- `ft_frame_format_empty`. -/
def formatEmpty : Frame := { f with vecs := [], vecPosition := 0 }

/-- The size test, the assertions and the new table entry of `ft_frame_create_vec` and
`ft_frame_append_vec`. The result is the index of the vector, or null if there is no room. -/
def createVec (offset capacity : ℕ) : Except Fault (Option ℕ × Frame) :=
  let room : ℤ := f.capacity - SIZEOF_VEC * (f.vecLimit + 1)
  if toSize room < u64 (offset + capacity) then .ok (none, f)
  else if room ≤ 0 then .error (.abort .vecInFrame)
  else .ok (some f.vecLimit,
    { f with vecs := f.vecs ++ [⟨u16 offset, 0, u16 capacity, u16 capacity⟩] })

/-- Where `ft_frame_append_vec` places the next vector: behind the last one. -/
def appendOffset : ℕ :=
  match f.vecs.getLast? with
  | none => 0
  | some prev => prev.offset + prev.capacity

/-- `ft_frame_append_vec`. -/
def appendVec (capacity : ℕ) : Except Fault (Option ℕ × Frame) :=
  f.createVec f.appendOffset capacity

/-- `ft_frame_append_max_vec`, which relies on the vector. -/
def appendMaxVec : Except Fault Frame := do
  match ← f.appendVec 0 with
  | (none, _) => throw (.abort .vecNotNull)
  | (some i, y) =>
    let room : ℤ := f.capacity - SIZEOF_VEC * (f.vecLimit + 1)
    return { y with vecs := y.vecs.modify i fun v =>
      { v with
        limit := u16 (toSize (room - v.offset)),
        capacity := u16 (toSize (room - v.offset)) } }

/-- `ft_frame_format_simple`. -/
def formatSimple : Except Fault Frame := do
  let r ← f.formatEmpty.createVec 0 (toSize (f.capacity - SIZEOF_VEC))
  return r.2

/-- `ft_frame_remove_last_vec`. -/
def removeLastVec : Bool × Frame :=
  if f.vecLimit = 0 then (false, f) else (true, { f with vecs := f.vecs.dropLast })

/-- `ft_frame_flip`. -/
def flip : Frame := { f with vecs := f.vecs.map Vec.flip, vecPosition := 0 }

/-- `ft_frame_get_vec`: the vector under the cursor, or null behind the last one. -/
def getVec : Except Fault (Option Vec) :=
  if f.vecPosition = f.vecLimit then .ok none
  else if f.vecLimit < f.vecPosition then .error (.abort .vecPositionBelowLimit)
  else .ok f.vecs[f.vecPosition]?

/-- `ft_frame_next_vec`; the flag tells whether there is a next vector. -/
def nextVec : Except Fault (Bool × Frame) :=
  if f.vecPosition = f.vecLimit then .ok (false, f)
  else if f.vecLimit < f.vecPosition then .error (.abort .vecPositionBelowLimit)
  else .ok (f.vecPosition + 1 ≠ f.vecLimit, { f with vecPosition := f.vecPosition + 1 })

/-- `ft_frame_prev_vec`. -/
def prevVec : Frame :=
  if f.vecPosition = 0 then f else { f with vecPosition := f.vecPosition - 1 }

/-- `ft_frame_reset_vec`. -/
def resetVec : Frame := { f with vecPosition := 0 }

/-- Change the vector at an index of the table. -/
def modifyVec (i : ℕ) (g : Vec → Vec) : Frame := { f with vecs := f.vecs.modify i g }

/-- `ft_vec_advance` on the vector under the cursor. -/
def advanceVec (v : Vec) (delta : ℕ) : Except Fault Frame := do
  let v' ← v.advance delta
  return { f with vecs := f.vecs.set f.vecPosition v' }

/-- Store bytes into the frame memory. -/
def write (off : ℕ) (bs : List UInt8) : Frame := { f with data := splice f.data off bs }

/-- `ft_vec_cat` on the vector at an index, where `v` is the vector. -/
def cat (i : ℕ) (v : Vec) (bytes : List UInt8) : Bool × Frame :=
  if v.limit < u64 (v.position + bytes.length) then (false, f)
  else (true, (f.write (v.offset + v.position) bytes).modifyVec i fun v =>
    { v with position := u16 (v.position + bytes.length) })

/-- `ft_vec_strcat`. -/
def strcat (i : ℕ) (v : Vec) (text : List UInt8) : Bool × Frame :=
  f.cat i v (text.takeWhile (· ≠ 0))

/-- `ft_vec_vsprintf`. The text is null if `vsnprintf` fails. -/
def vsprintf (i : ℕ) (v : Vec) (text : Option (List UInt8)) : Bool × Frame :=
  let maxSize := toSize (v.limit - v.position - 1 : ℤ)
  match text with
  | none => (false, f)
  | some text =>
    let y := if maxSize = 0 then f
      else f.write (v.offset + v.position) (text.take (maxSize - 1) ++ [0])
    if maxSize < text.length then (false, y)
    else (true, y.modifyVec i fun v => { v with position := u16 (v.position + text.length) })

section Creation

variable {f y : Frame} {offset capacity : ℕ} {r : Option ℕ}

/-- The space below the table when it has one more entry. -/
def room : ℤ := f.capacity - SIZEOF_VEC * (f.vecLimit + 1)

/-- The frame with one more vector. -/
def push (offset capacity : ℕ) : Frame :=
  { f with vecs := f.vecs ++ [⟨u16 offset, 0, u16 capacity, u16 capacity⟩] }

/-- A vector is created or there is no room for it. -/
theorem createVec_ok (h : f.createVec offset capacity = .ok (r, y)) :
    (r = none ∧ y = f ∧ toSize f.room < u64 (offset + capacity)) ∨
      (r = some f.vecLimit ∧ y = f.push offset capacity ∧ u64 (offset + capacity) ≤ f.room ∧
        0 < f.room) := by
  unfold createVec at h
  dsimp only at h
  split_ifs at h with hsize hroom
  · cases h
    exact .inl ⟨rfl, rfl, hsize⟩
  · cases h
    refine .inr ⟨rfl, rfl, ?_, not_le.mp hroom⟩
    have hpos : 0 < f.room := not_le.mp hroom
    change ¬toSize f.room < _ at hsize
    rw [toSize, if_pos hpos.le] at hsize
    omega

theorem createVec_none (h : toSize f.room < u64 (offset + capacity)) :
    f.createVec offset capacity = .ok (none, f) := if_pos h

theorem createVec_some (h : u64 (offset + capacity) ≤ f.room) (hpos : 0 < f.room) :
    f.createVec offset capacity = .ok (some f.vecLimit, f.push offset capacity) := by
  unfold createVec
  have hsize : ¬toSize f.room < u64 (offset + capacity) := by
    rw [toSize, if_pos hpos.le]
    omega
  exact (if_neg hsize).trans (if_neg (not_le.mpr hpos))

end Creation

section Errors

variable {f : Frame} {v : Vec} {n offset capacity : ℕ} {e : Fault}

theorem getVec_error (h : f.getVec = .error e) : e = .abort .vecPositionBelowLimit := by
  unfold getVec at h
  split at h
  · cases h
  · split at h <;> cases h
    rfl

theorem nextVec_error (h : f.nextVec = .error e) : e = .abort .vecPositionBelowLimit := by
  unfold nextVec at h
  split at h
  · cases h
  · split at h <;> cases h
    rfl

theorem advanceVec_abort (h : f.advanceVec v n = .error e) :
    e = .abort .advanceWithinLimit ∨ e = .abort .advanceWithinCapacity := by
  unfold advanceVec Vec.advance at h
  split at h
  · cases h
    exact Or.inl rfl
  · split at h <;> cases h
    exact Or.inr rfl

theorem createVec_error (h : f.createVec offset capacity = .error e) :
    e = .abort .vecInFrame := by
  unfold createVec at h
  dsimp only at h
  split_ifs at h
  cases h
  rfl

theorem formatSimple_error (h : f.formatSimple = .error e) : e = .abort .vecInFrame := by
  unfold formatSimple at h
  cases hc : f.formatEmpty.createVec 0 (toSize (f.capacity - SIZEOF_VEC)) with
  | error e' =>
    rw [hc] at h
    cases h
    exact createVec_error hc
  | ok r =>
    rw [hc] at h
    cases h

end Errors

section Simple

/-- The one vector of `ft_frame_format_simple` in a pool frame. -/
def simple : List Vec := [⟨0, 0, FRAME_SIZE - SIZEOF_VEC, FRAME_SIZE - SIZEOF_VEC⟩]

theorem formatSimple_eq {x : Frame} (h : x.capacity = FRAME_SIZE) :
    x.formatSimple = .ok { x with vecs := simple, vecPosition := 0 } := by
  simp [formatSimple, formatEmpty, createVec, vecLimit, h, simple, FRAME_SIZE, SIZEOF_VEC, toSize,
    u64, u16]

end Simple

section Header

variable {f y : Frame} {v : Vec} {n : ℕ} {more : Bool}

/-- Advancing keeps the link and the type. -/
theorem advanceVec_header (h : f.advanceVec v n = .ok y) :
    y.next = f.next ∧ y.type = f.type := by
  unfold advanceVec at h
  cases hv : v.advance n with
  | error e =>
    rw [hv] at h
    cases h
  | ok v' =>
    rw [hv] at h
    cases h
    exact ⟨rfl, rfl⟩

theorem nextVec_header (h : f.nextVec = .ok (more, y)) : y.next = f.next ∧ y.type = f.type := by
  unfold nextVec at h
  split at h
  · cases h
    exact ⟨rfl, rfl⟩
  · split at h <;> cases h
    exact ⟨rfl, rfl⟩

theorem advanceVec_data (h : f.advanceVec v n = .ok y) : y.data = f.data := by
  unfold advanceVec at h
  cases hv : v.advance n with
  | error e =>
    rw [hv] at h
    cases h
  | ok v' =>
    rw [hv] at h
    cases h
    rfl

end Header

section Cursor

variable {x : Frame} {v : Vec} {rest : List Vec} {n : ℕ}

theorem lt_of_drop (hv : x.vecs.drop x.vecPosition = v :: rest) :
    x.vecPosition < x.vecLimit := by
  by_contra hge
  simp [List.drop_eq_nil_of_le (not_lt.mp hge)] at hv

theorem drop_succ (hv : x.vecs.drop x.vecPosition = v :: rest) :
    x.vecs.drop (x.vecPosition + 1) = rest := by
  rw [← List.drop_drop, hv, List.drop_succ_cons, List.drop_zero]

theorem getVec_of_drop (hv : x.vecs.drop x.vecPosition = v :: rest) :
    x.getVec = .ok (some v) := by
  have hlt := lt_of_drop hv
  have hget : x.vecs[x.vecPosition]? = some v := by
    rw [← List.head?_drop, hv, List.head?_cons]
  rw [getVec, if_neg hlt.ne, if_neg (not_lt.mpr hlt.le), hget]

theorem nextVec_of_drop (hv : x.vecs.drop x.vecPosition = v :: rest) :
    x.nextVec = .ok (rest ≠ [], { x with vecPosition := x.vecPosition + 1 }) := by
  have hlt := lt_of_drop hv
  have hrest : x.vecPosition + 1 ≠ x.vecLimit ↔ rest ≠ [] := by
    rw [← drop_succ hv, ne_eq, ne_eq, List.drop_eq_nil_iff]
    simp only [vecLimit] at *
    omega
  rw [nextVec, if_neg hlt.ne, if_neg (not_lt.mpr hlt.le)]
  simp only [hrest]

/-- The frame after the vector `v` under its cursor advanced by `n`. -/
def advanced (x : Frame) (v : Vec) (n : ℕ) : Frame :=
  { x with vecs := x.vecs.set x.vecPosition { v with position := v.position + n } }

theorem drop_advanced (hv : x.vecs.drop x.vecPosition = v :: rest) :
    (x.advanced v n).vecs.drop x.vecPosition = { v with position := v.position + n } :: rest := by
  have hlt := lt_of_drop hv
  have hs : x.vecPosition < (x.advanced v n).vecs.length := by
    simpa [advanced, vecLimit] using hlt
  rw [List.drop_eq_getElem_cons hs]
  simp [advanced, List.drop_set_of_lt, drop_succ hv]

theorem advanceVec_eq (hl : v.position + n ≤ v.limit) (hc : v.position + n ≤ v.capacity) :
    x.advanceVec v n = .ok (x.advanced v n) := by
  rw [advanceVec, Vec.advance, if_neg (not_lt.mpr hl), if_neg (not_lt.mpr hc)]
  rfl

theorem advanceVec_error (hl : v.position + n ≤ v.limit) (hc : v.capacity < v.position + n) :
    x.advanceVec v n = .error (.abort .advanceWithinCapacity) := by
  rw [advanceVec, Vec.advance, if_neg (not_lt.mpr hl), if_pos hc]
  rfl

end Cursor

end Frame

end FrameTransporter
