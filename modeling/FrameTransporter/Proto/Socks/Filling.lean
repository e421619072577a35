import FrameTransporter.Proto.Socks.Decision
import FrameTransporter.Sock.Stream.Feed

/-! # Filling the frame of a message

The read frame holds the bytes that the parser has seen, as long as the fields fit
in front of the table of vectors. Only the last vector takes bytes.
-/

namespace FrameTransporter

open Intrusive

namespace Socks

/-- The field being read fits in a pool frame, before the table of vectors. -/
def Parser.Fits (p : Parser) : Prop :=
  p.fields.flatten.length + p.room + SIZEOF_VEC * (p.fields.length + 1) ≤ FRAME_SIZE

section Full

variable {x : Frame} {fields : List (List UInt8)} {last : List UInt8} {n : ℕ}

theorem appendOffset_layout (h : x.vecs = layout 0 fields) :
    x.appendOffset = fields.flatten.length := by
  obtain rfl | ⟨fields, last, rfl⟩ := List.eq_nil_or_concat' fields
  · rw [Frame.appendOffset, h]
    rfl
  · rw [Frame.appendOffset, h, layout_append]
    simp [layout]

theorem Full.room (h : Full fields x) :
    x.room = FRAME_SIZE - SIZEOF_VEC * (fields.length + 1) := by
  rw [Frame.room, h.vecLimit, h.capacity]

/-- A vector is appended behind the full fields. -/
theorem Full.append (h : Full fields x) (this : Socks) (phase : Phase) (h0 : 0 < n)
    (hn : Parser.Fits ⟨this, phase, fields, [], n⟩) :
    ∃ i y, x.appendVec n = .ok (some i, y) ∧ Holds ⟨this, phase, fields, [], n⟩ y := by
  simp only [Parser.Fits, FRAME_SIZE, SIZEOF_VEC] at hn
  have hroom := h.room
  simp only [FRAME_SIZE, SIZEOF_VEC] at hroom
  rw [Frame.appendVec, appendOffset_layout h.vecs, Frame.createVec_some]
  · refine ⟨_, _, rfl, ?_, h.cursor, ?_, h.capacity, h.type⟩
    · dsimp only [Frame.push]
      rw [h.vecs, u16, u16, Nat.mod_eq_of_lt (by omega), Nat.mod_eq_of_lt (by omega)]
      rfl
    · simpa [Parser.bytes, Frame.push] using h.data
  · rw [hroom, u64, Nat.mod_eq_of_lt (by omega)]
    omega
  · omega

/-- Where there is no room, no vector is appended. -/
theorem Full.append_none (h : Full fields x)
    (hl : SIZEOF_VEC * (fields.length + 1) ≤ FRAME_SIZE)
    (hf : fields.flatten.length + n < 2 ^ 64)
    (hn : FRAME_SIZE < fields.flatten.length + n + SIZEOF_VEC * (fields.length + 1)) :
    x.appendVec n = .ok (none, x) := by
  rw [Frame.appendVec, appendOffset_layout h.vecs, Frame.createVec_none]
  rw [h.room, u64, Nat.mod_eq_of_lt hf]
  have hsub := toSize_sub hl
  push_cast at hsub
  omega

/-- The last vector is enlarged, and the cursor goes back to it. -/
theorem Full.grow (h : Full (fields ++ [last]) x) (this : Socks) (phase : Phase)
    (hn : last.length + n < 2 ^ 16) :
    Holds ⟨this, phase, fields, last, last.length + n⟩
      (x.prevVec.modifyVec fields.length (grow n)) := by
  have hcur : x.vecPosition = fields.length + 1 := by simpa using h.cursor
  have hprev : x.prevVec = { x with vecPosition := fields.length } := by
    rw [Frame.prevVec, if_neg (by omega), hcur]
    rfl
  rw [hprev]
  refine ⟨?_, rfl, ?_, h.capacity, h.type⟩
  · dsimp only [Frame.modifyVec]
    rw [h.vecs, layout_append, layout, layout, ← length_layout 0 fields, modify_concat]
    simpa [Socks.grow, u16] using hn
  · have hdata := h.data
    rw [List.flatten_concat] at hdata
    exact hdata

end Full

section Holds

variable {p : Parser} {x : Frame} {bytes : List UInt8}

/-- The vector that takes bytes. -/
def Parser.vec (p : Parser) : Vec := ⟨p.fields.flatten.length, p.part.length, p.room, p.room⟩

theorem Holds.drop (h : Holds p x) : x.vecs.drop x.vecPosition = [p.vec] := by
  rw [h.vecs, h.cursor, List.drop_left' (length_layout _ _)]
  rfl

theorem Holds.getVec (h : Holds p x) : x.getVec = .ok (some p.vec) := Frame.getVec_of_drop h.drop

theorem Holds.vecLimit (h : Holds p x) : x.vecLimit = p.fields.length + 1 := by
  rw [Frame.vecLimit, h.vecs, List.length_append, length_layout]
  rfl

theorem length_bytes (p : Parser) : p.bytes.length = p.fields.flatten.length + p.part.length :=
  List.length_append

theorem Holds.slice_stored (h : Holds p x) :
    slice (x.stored p.vec bytes).data 0 (p.bytes.length + bytes.length) = p.bytes ++ bytes := by
  have hoff : p.vec.offset + p.vec.position = p.bytes.length := (length_bytes p).symm
  change slice (splice x.data (p.vec.offset + p.vec.position) bytes) 0 _ = _
  rw [hoff, slice_add, slice_splice_of_disjoint (Or.inl (Nat.zero_add _).le), h.data,
    Nat.zero_add, slice_splice_self]

theorem Holds.vecs_stored (h : Holds p x) : (x.stored p.vec bytes).vecs =
    layout 0 p.fields ++
      [⟨p.fields.flatten.length, p.part.length + bytes.length, p.room, p.room⟩] := by
  rw [Frame.vecs_stored h.drop, h.cursor, h.vecs, List.take_left' (length_layout _ _)]
  rfl

/-- Bytes that do not fill the vector. -/
theorem Holds.store (h : Holds p x) :
    Holds { p with part := p.part ++ bytes } (x.stored p.vec bytes) := by
  have hbytes : Parser.bytes { p with part := p.part ++ bytes } = p.bytes ++ bytes :=
    (List.append_assoc _ _ _).symm
  refine ⟨?_, h.cursor, ?_, h.capacity, h.type⟩
  · rw [h.vecs_stored, List.length_append]
  · rw [hbytes, List.length_append]
    exact h.slice_stored

/-- Bytes that fill the vector. -/
theorem Holds.filled (h : Holds p x) (hl : p.part.length + bytes.length = p.room) :
    Full (p.fields ++ [p.part ++ bytes]) (x.filledUp p.vec bytes) := by
  have hflat : (p.fields ++ [p.part ++ bytes]).flatten = p.bytes ++ bytes := by
    simp [Parser.bytes]
  refine ⟨?_, ?_, ?_, h.capacity, h.type⟩
  · change (x.stored p.vec bytes).vecs = _
    rw [h.vecs_stored, layout_append]
    simp [layout, hl]
  · change x.vecPosition + 1 = _
    rw [h.cursor, List.length_append]
    rfl
  · rw [hflat, List.length_append]
    exact h.slice_stored

theorem sum_position_layout (off : ℕ) (fields : List (List UInt8)) :
    ((layout off fields).map Vec.position).sum = fields.flatten.length := by
  induction fields generalizing off with
  | nil => rfl
  | cons field fields ih => simp [layout, ih]

theorem Holds.pos (h : Holds p x) : x.pos = p.bytes.length := by
  rw [Frame.pos, h.vecs, List.map_append, List.sum_append, sum_position_layout, length_bytes]
  rfl

end Holds

end Socks

end FrameTransporter
