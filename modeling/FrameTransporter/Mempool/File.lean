import FrameTransporter.Mempool.Frame

/-! # Files in frames

A file is read into the one vector of a simple frame and written from the vectors
of a frame. The size of a file is cut to the limit of the vector for the new
position, but all of the file is stored. A file that fits reads back, and a longer
one overwrites the table of vectors and what lies behind the frame.
-/

namespace FrameTransporter

open Intrusive

/-- A file opened for reading: the size that `ftell` finds, null if it fails, and the bytes that
`fread` can deliver. -/
structure File where
  size : Option ℕ
  bytes : List UInt8

namespace Frame

variable (f : Frame)

/-- Store bytes at the position of the vector `vec`. Where they reach the table, the entry of the
vector becomes what the bytes over it say; addresses behind the capacity are those of the memory
behind the frame. -/
def fill (descriptor : Vec → List UInt8 → Vec) (vec : Vec) (bytes : List UInt8) : Frame :=
  let offset := vec.offset + vec.position
  let table := f.capacity - SIZEOF_VEC * f.vecLimit
  if offset + bytes.length ≤ table then f.write offset bytes
  else (f.write offset bytes).modifyVec f.vecPosition fun v =>
    descriptor v (bytes.drop (table - offset))

/-- `ft_frame_fread`. -/
def fread (descriptor : Vec → List UInt8 → Vec) (file : File) : Except Fault (Bool × Frame) := do
  let f ← f.formatSimple
  match file.size with
  | none => return (false, f)
  | some ssz =>
    match ← f.getVec with
    | none => throw (.abort .vecNotNull)
    | some vec =>
      let sz := if vec.limit < ssz then vec.limit else ssz
      let f := f.fill descriptor vec (file.bytes.take ssz)
      if ssz = 0 ∨ file.bytes.length < ssz then return (false, f)
      else
        match ← f.getVec with
        | none => throw (.abort .vecNotNull)
        | some vec =>
          let f ← f.advanceVec vec sz
          return (true, f)

/-- The loop of `ft_frame_fwrite` from the vector number `i` on. A write fails after a number of
bytes, and a write of no bytes counts as failed. -/
def fwriteLoop (failsAt : ℕ → Option ℕ) : ℕ → List Vec → List UInt8 → Bool × List UInt8
  | _, [], written => (true, written)
  | i, v :: vecs, written =>
    match failsAt i with
    | some n => (false, written ++ (slice f.data v.offset v.limit).take n)
    | none =>
      if v.limit = 0 then (false, written)
      else fwriteLoop failsAt (i + 1) vecs (written ++ slice f.data v.offset v.limit)

/-- `ft_frame_fwrite`, with the bytes that it writes. -/
def fwrite (failsAt : ℕ → Option ℕ) : Bool × List UInt8 := f.fwriteLoop failsAt 0 f.vecs []

section Reading

variable {x y : Frame} {descriptor : Vec → List UInt8 → Vec} {file : List UInt8}

/-- The vectors of a flipped frame are written with the bytes that were read into them. -/
theorem fwriteLoop_flip {i : ℕ} {vecs : List Vec} {written : List UInt8}
    (h : ∀ v ∈ vecs, 0 < v.position) :
    x.flip.fwriteLoop (fun _ => none) i (vecs.map Vec.flip) written =
      (true, written ++ vecs.flatMap x.receivedBytes) := by
  induction vecs generalizing i written with
  | nil => simp [fwriteLoop]
  | cons v vecs ih =>
    have hv : (Vec.flip v).limit ≠ 0 := (h v (by simp)).ne'
    rw [List.map_cons, fwriteLoop, if_neg hv, ih fun u hu => h u (by simp [hu]),
      List.flatMap_cons, ← List.append_assoc]
    rfl

/-- A frame whose vectors all hold bytes is written with these bytes, once it is flipped. -/
theorem fwrite_flip (h : ∀ v ∈ x.vecs, 0 < v.position) :
    x.flip.fwrite (fun _ => none) = (true, x.contents) :=
  fwriteLoop_flip h

/-- The vector of a simple frame. -/
def simpleVec : Vec := ⟨0, 0, FRAME_SIZE - SIZEOF_VEC, FRAME_SIZE - SIZEOF_VEC⟩

theorem getVec_simple : ({ x with vecs := simple, vecPosition := 0 } : Frame).getVec =
    .ok (some simpleVec) :=
  rfl

theorem fill_data {v : Vec} : (x.fill descriptor v file).data =
    splice x.data (v.offset + v.position) file := by
  simp only [fill]
  split_ifs <;> rfl

/-- All bytes of a file are stored, from the start of the frame on. -/
theorem fread_data (hx : x.capacity = FRAME_SIZE)
    (h : x.fread descriptor ⟨some file.length, file⟩ = .ok (true, y)) :
    y.data = splice x.data 0 file := by
  rw [fread, formatSimple_eq hx, ok_bind] at h
  dsimp only at h
  rw [getVec_simple, ok_bind, List.take_length] at h
  dsimp only at h
  generalize (if simpleVec.limit < file.length then simpleVec.limit else file.length) = sz at h
  split_ifs at h
  · cases h
  · generalize hz : ({ x with vecs := simple, vecPosition := 0 } : Frame).fill descriptor simpleVec
      file = z at h
    have hdata : z.data = splice x.data 0 file := by
      rw [← hz, fill_data]
      rfl
    obtain ⟨u, hvec, h⟩ := bind_ok h
    cases u with
    | none => cases h
    | some u =>
      obtain ⟨z', hadvance, h⟩ := bind_ok h
      cases h
      rw [advanceVec_data hadvance, hdata]

/-- A file that fits is read as a whole. -/
theorem fread_short (hx : x.capacity = FRAME_SIZE) (hne : file ≠ [])
    (hle : file.length ≤ FRAME_SIZE - SIZEOF_VEC) :
    x.fread descriptor ⟨some file.length, file⟩ = .ok (true, { x with
      vecs := [⟨0, file.length, FRAME_SIZE - SIZEOF_VEC, FRAME_SIZE - SIZEOF_VEC⟩],
      vecPosition := 0, data := splice x.data 0 file }) := by
  let z : Frame := { x with vecs := simple, vecPosition := 0 }
  have hpos : file.length ≠ 0 := (List.length_pos_iff.mpr hne).ne'
  have hlimit : simpleVec.limit = FRAME_SIZE - SIZEOF_VEC := rfl
  have hfill : z.fill descriptor simpleVec file = z.write 0 file := by
    refine if_pos ?_
    change 0 + file.length ≤ x.capacity - SIZEOF_VEC
    omega
  have hvec : (z.write 0 file).getVec = .ok (some simpleVec) := rfl
  have hadvance : (z.write 0 file).advanceVec simpleVec file.length =
      .ok ((z.write 0 file).advanced simpleVec file.length) :=
    advanceVec_eq (by simpa [simpleVec] using hle) (by simpa [simpleVec] using hle)
  rw [fread, formatSimple_eq hx, ok_bind]
  dsimp only
  rw [getVec_simple, ok_bind, List.take_length]
  dsimp only
  rw [hfill, if_neg (by simp [hpos]), if_neg (by omega), hvec, ok_bind]
  dsimp only
  rw [hadvance, ok_bind]
  simp [advanced, write, z, simple, simpleVec, Pure.pure, Except.pure]

/-- What a file leaves behind that was read into a frame with the memory `data` and `limit` bytes:
its first bytes are in the vector, no byte behind them changed, and they are written again. -/
structure ReadBack (data : ℕ → UInt8) (limit : ℕ) (file : List UInt8) (y : Frame) : Prop where
  position : y.vecs.map Vec.position = [min file.length limit]
  contents : y.contents = file.take limit
  outside : ∀ k, limit ≤ k → y.data k = data k
  written : y.flip.fwrite (fun _ => none) = (true, file.take limit)

/-- Whatever the memory of the frame holds, a file is read into it and back. -/
def ReadsBack (x : Frame) (descriptor : Vec → List UInt8 → Vec) (file : List UInt8) : Prop :=
  ∀ data, ∃ y, ({ x with data } : Frame).fread descriptor ⟨some file.length, file⟩ = .ok (true, y) ∧
    ReadBack data (x.capacity - SIZEOF_VEC) file y

/-- A file that is longer than the vector is stored over its table. -/
theorem not_readsBack (hx : x.capacity = FRAME_SIZE)
    (hlong : FRAME_SIZE - SIZEOF_VEC < file.length) : ¬x.ReadsBack descriptor file := by
  intro h
  obtain ⟨k, hk, hlimit⟩ : ∃ k, k < file.length ∧ x.capacity - SIZEOF_VEC = k :=
    ⟨_, hx ▸ hlong, rfl⟩
  -- the byte behind the limit is one that the frame did not hold there
  obtain ⟨y, hread, hback⟩ := h fun _ => file[k] + 1
  have hdata : y.data = splice (fun _ => file[k] + 1) 0 file :=
    fread_data (x := { x with data := fun _ => file[k] + 1 }) hx hread
  have hsame := hback.outside k hlimit.le
  rw [hdata, splice, if_pos (Nat.zero_le k), Nat.sub_zero, List.getElem?_eq_getElem hk,
    Option.getD_some] at hsame
  simp at hsame

/-- A file is read into a pool frame and back exactly when it fits. -/
theorem readsBack_iff (hx : x.capacity = FRAME_SIZE) (hne : file ≠ []) :
    x.ReadsBack descriptor file ↔ file.length ≤ FRAME_SIZE - SIZEOF_VEC := by
  constructor
  · intro h
    by_contra hlong
    exact not_readsBack hx (not_le.mp hlong) h
  · intro hle data
    refine ⟨_, fread_short (x := { x with data }) hx hne hle, ?_⟩
    have hcontents : slice (splice data 0 file) 0 file.length = file := slice_splice_self
    have htake : file.take (FRAME_SIZE - SIZEOF_VEC) = file := List.take_of_length_le hle
    rw [hx]
    constructor
    · simp [hle]
    · simp [Frame.contents, receivedBytes, hcontents, htake]
    · intro k hk
      have hout : 0 + file.length ≤ k := by omega
      exact splice_of_ge hout
    · rw [fwrite_flip, Frame.contents]
      · simp [receivedBytes, hcontents, htake]
      · simpa using List.length_pos_iff.mpr hne

/-- A frame of the pool that was not formatted. -/
def unformatted : Frame := ⟨none, .rawData, 0, [], false, 0, none, 0, fun _ => 0, FRAME_SIZE⟩

theorem readsBack_two : unformatted.ReadsBack (fun v _ => v) [104, 105] ↔
    2 ≤ FRAME_SIZE - SIZEOF_VEC :=
  readsBack_iff rfl (by decide)

/-- A file of the size of a frame does not read back. -/
theorem not_readsBack_all : ¬∀ (x : Frame) (descriptor : Vec → List UInt8 → Vec)
    (file : List UInt8), x.capacity = FRAME_SIZE → file ≠ [] → x.ReadsBack descriptor file := by
  intro h
  obtain ⟨file, hfile⟩ : ∃ file : List UInt8, file.length = FRAME_SIZE :=
    ⟨List.replicate FRAME_SIZE 0, List.length_replicate⟩
  have hlong : FRAME_SIZE - SIZEOF_VEC < file.length := by rw [hfile]; decide
  exact not_readsBack rfl hlong (h unformatted (fun v _ => v) file rfl
    (List.length_pos_iff.mp (by omega)))

end Reading

end Frame

end FrameTransporter
