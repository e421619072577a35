import FrameTransporter.Intervals.Tiling
import FrameTransporter.Mempool.Frame

/-! # The layout of a zone

A zone is one mapping: the header with the array of frames, and behind it the data
of the frames, page by page. The size of the mapping is computed in `size_t`, the
place of a frame from its index in `int`. The data of the frames tile the end of
the mapping unless an offset overflows. The links of the frames and the flags are
those of the pool's model.
-/

namespace FrameTransporter

open Intervals

/-- The sizes of `struct ft_poolzone`, without its frames, and of `struct ft_frame`. -/
structure Sizeof where
  poolzone : ℕ
  frame : ℕ
  poolzone_pos : 0 < poolzone

/-- Where the data of a frame are. -/
structure FrameData where
  data : ℕ
  capacity : ℕ
  deriving DecidableEq, Repr

/-- A zone at an address, with the counter of its pool. The first and the last frame are given by
their index. -/
structure Poolzone where
  this : ℕ
  allocSize : ℕ
  framesTotal : ℤ
  poolFramesTotal : ℤ
  lowFrame : ℤ
  highFrame : ℤ
  frames : List FrameData
  deriving DecidableEq, Repr

namespace Poolzone

/-- A number computed as an `int`, which is undefined if it overflows. -/
def int (z : ℤ) : Except Fault ℤ := if -2 ^ 31 ≤ z ∧ z < 2 ^ 31 then .ok z else .error .misuse

/-- A `size_t` stored into an `int`. -/
def toInt (n : ℕ) : ℤ := Int.bmod n (2 ^ 32)

/-- `_ft_frame_init`. -/
def frameInit (data capacity : ℕ) : Except Fault FrameData :=
  if data % MEMPAGE_SIZE ≠ 0 then .error (.abort .dataPageAligned) else .ok ⟨data, capacity⟩

/-- The loop of `ft_poolzone_init` over the frames, with `k` of them left from index `i` on. -/
def initFrames (frameData : ℕ) (lowFrame highFrame : ℤ) : ℕ → ℕ → Except Fault (List FrameData)
  | 0, _ => .ok []
  | k + 1, i => do
    let offset ← int (i * FRAME_SIZE)
    let frame ← frameInit (frameData + offset.toNat) FRAME_SIZE
    if (i : ℤ) < lowFrame ∨ highFrame < i then throw (.abort .frameInZone)
    else
      let frames ← initFrames frameData lowFrame highFrame k (i + 1)
      return frame :: frames

/-- `ft_poolzone_init`. The count of frames is stored into an `int`; if nothing is left of it, the
last frame lies outside of the array. -/
def init (this data allocSize frameCount poolFramesTotal : ℕ) : Except Fault Poolzone := do
  if frameCount = 0 then throw (.abort .frameCountPositive)
  else if data ≤ this then throw (.abort .zoneBelowData)
  else if this + allocSize ≤ data then throw (.abort .dataInZone)
  else
    let framesTotal := toInt frameCount
    let poolFramesTotal ← int (poolFramesTotal + framesTotal)
    if framesTotal ≤ 0 then throw .misuse
    else
      let frames ← initFrames data 0 (framesTotal - 1) framesTotal.toNat 0
      return { this, allocSize, framesTotal, poolFramesTotal
               lowFrame := 0, highFrame := framesTotal - 1, frames }

/-- `ft_poolzone_new_mmap`, where `mmap` gives an address for a size. -/
def newMmap (size : Sizeof) (mmap : ℕ → Option ℕ) (frameCount poolFramesTotal : ℕ) :
    Except Fault (Option Poolzone) := do
  let mmapSizeFrames := u64 (frameCount * FRAME_SIZE)
  if mmapSizeFrames % MEMPAGE_SIZE ≠ 0 then throw (.abort .framesPageAligned)
  else
    let mmapSizeZone := u64 (size.poolzone + u64 (frameCount * size.frame))
    let mmapSizeFill := MEMPAGE_SIZE - mmapSizeZone % MEMPAGE_SIZE
    let mmapSizeFill := if mmapSizeFill = MEMPAGE_SIZE then 0 else mmapSizeFill
    let allocSize := u64 (mmapSizeFrames + mmapSizeZone + mmapSizeFill)
    if allocSize % MEMPAGE_SIZE ≠ 0 then throw (.abort .allocPageAligned)
    else
      match mmap allocSize with
      | none => return none
      | some p =>
        let this ← init p (p + u64 (mmapSizeZone + mmapSizeFill)) allocSize frameCount
          poolFramesTotal
        return some this

/-- The frame at an index, for data from an address on. -/
def place (data i : ℕ) : FrameData := ⟨data + i * FRAME_SIZE, FRAME_SIZE⟩

section Frames

variable {data i k n : ℕ} {high z : ℤ} {frames : List FrameData}

theorem int_ok {z' : ℤ} (h : int z = .ok z') : z' = z ∧ -2 ^ 31 ≤ z ∧ z < 2 ^ 31 := by
  unfold int at h
  split_ifs at h with hz
  cases h
  exact ⟨rfl, hz⟩

theorem frameInit_place (hd : MEMPAGE_SIZE ∣ data) :
    frameInit (data + i * FRAME_SIZE) FRAME_SIZE = .ok (place data i) := by
  have hdvd : MEMPAGE_SIZE ∣ data + i * FRAME_SIZE :=
    Nat.dvd_add hd (Nat.dvd_mul_left_of_dvd (by decide) i)
  exact if_neg (not_not_intro (Nat.mod_eq_zero_of_dvd hdvd))

/-- Without overflow each frame is placed behind the one before it. -/
theorem initFrames_eq (hd : MEMPAGE_SIZE ∣ data) (hsize : (i + k - 1) * FRAME_SIZE < 2 ^ 31)
    (hhigh : (i + k : ℤ) ≤ high + 1) :
    initFrames data 0 high k i = .ok ((List.range' i k).map (place data)) := by
  induction k generalizing i with
  | zero => rfl
  | succ k ih =>
    have hle : i * FRAME_SIZE ≤ (i + (k + 1) - 1) * FRAME_SIZE :=
      Nat.mul_le_mul_right _ (by omega)
    have hint : int (i * FRAME_SIZE : ℕ) = .ok (i * FRAME_SIZE : ℕ) := if_pos (by omega)
    have hnext : (i + 1 + k - 1) * FRAME_SIZE < 2 ^ 31 := by
      have hsame : i + 1 + k = i + (k + 1) := by omega
      rwa [hsame]
    have hoffset : (i * FRAME_SIZE : ℤ).toNat = i * FRAME_SIZE := by
      rw [← Nat.cast_mul, Int.toNat_natCast]
    have hin : ¬((i : ℤ) < 0 ∨ high < i) := by omega
    push_cast at hint hhigh
    rw [initFrames, hint, ok_bind, hoffset, frameInit_place hd, ok_bind, if_neg hin,
      ih hnext (by push_cast; omega), ok_bind, List.range'_succ, List.map_cons]
    rfl

/-- The place of the last frame is computed without overflow. -/
theorem initFrames_ok (h : initFrames data 0 high (k + 1) i = .ok frames) :
    (i + k) * FRAME_SIZE < 2 ^ 31 := by
  induction k generalizing i frames with
  | zero =>
    obtain ⟨offset, hint, -⟩ := bind_ok h
    obtain ⟨-, -, hlt⟩ := int_ok hint
    rw [Nat.add_zero]
    exact_mod_cast hlt
  | succ k ih =>
    obtain ⟨offset, -, h⟩ := bind_ok h
    obtain ⟨frame, -, h⟩ := bind_ok h
    split_ifs at h
    obtain ⟨rest, hrest, -⟩ := bind_ok h
    have := ih hrest
    rwa [Nat.add_assoc, Nat.add_comm 1] at this

/-- The data of the frames lie one behind the other. -/
theorem tiles_place : Tiles FrameData.data FrameData.capacity (data + i * FRAME_SIZE)
    ((List.range' i k).map (place data)) (data + (i + k) * FRAME_SIZE) := by
  induction k generalizing i with
  | zero => rfl
  | succ k ih =>
    have hnext := ih (i := i + 1)
    rw [List.range'_succ, List.map_cons, tiles_cons]
    refine ⟨rfl, ?_⟩
    have hstart : data + i * FRAME_SIZE + FRAME_SIZE = data + (i + 1) * FRAME_SIZE := by
      rw [Nat.add_assoc, Nat.succ_mul]
    have hend : i + 1 + k = i + (k + 1) := by omega
    rw [hend, ← hstart] at hnext
    exact hnext

end Frames

/-- The bytes that fill up the last page of a header. -/
def fill (n : ℕ) : ℕ := if MEMPAGE_SIZE - n % MEMPAGE_SIZE = MEMPAGE_SIZE then 0
  else MEMPAGE_SIZE - n % MEMPAGE_SIZE

theorem dvd_add_fill (n : ℕ) : MEMPAGE_SIZE ∣ n + fill n := by
  unfold fill MEMPAGE_SIZE
  split_ifs <;> omega

/-- The size of the header and the array of frames. -/
def headerSize (size : Sizeof) (n : ℕ) : ℕ := size.poolzone + n * size.frame

/-- The size of the mapping, as a number. -/
def mappingSize (size : Sizeof) (n : ℕ) : ℕ :=
  n * FRAME_SIZE + headerSize size n + fill (headerSize size n)

/-- A zone of `n` frames at `p`: its frames have all the data behind the header and its array, page
by page and apart from each other, and their offsets are `int`s. -/
structure LaidOut (size : Sizeof) (n p : ℕ) (z : Poolzone) : Prop where
  this : z.this = p
  framesTotal : z.framesTotal = n
  placed : ∃ data, z.frames = (List.range n).map fun i => ⟨data + i * FRAME_SIZE, FRAME_SIZE⟩
  offset : ∀ i < n, (i * FRAME_SIZE : ℤ) < 2 ^ 31
  aligned : ∀ f ∈ z.frames, MEMPAGE_SIZE ∣ f.data
  disjoint : z.frames.Pairwise fun f g => f.data + f.capacity ≤ g.data
  inside : ∀ f ∈ z.frames, p + headerSize size n ≤ f.data ∧ f.data + f.capacity ≤ p + z.allocSize
  allocSize : MEMPAGE_SIZE ∣ z.allocSize

section Mapping

variable {size : Sizeof} {mmap : ℕ → Option ℕ} {n p poolFramesTotal : ℕ} {z : Poolzone}

theorem u64_of_lt {n : ℕ} (h : n < 2 ^ 64) : u64 n = n := Nat.mod_eq_of_lt h

/-- While the sizes fit, the mapping has the size that was computed, and the data begin at the first
page behind the header. -/
theorem newMmap_eq (hfits : mappingSize size n < 2 ^ 64)
    (hmmap : mmap (mappingSize size n) = some p) :
    newMmap size mmap n poolFramesTotal = (do
      let this ← init p (p + (headerSize size n + fill (headerSize size n))) (mappingSize size n) n
        poolFramesTotal
      return some this) := by
  have hframes : u64 (n * FRAME_SIZE) = n * FRAME_SIZE := u64_of_lt (by
    unfold mappingSize at hfits
    omega)
  have harray : u64 (n * size.frame) = n * size.frame := u64_of_lt (by
    unfold mappingSize headerSize at hfits
    omega)
  have hzone : u64 (size.poolzone + n * size.frame) = headerSize size n := u64_of_lt (by
    unfold mappingSize headerSize at hfits
    omega)
  have hdata : u64 (headerSize size n + fill (headerSize size n)) =
      headerSize size n + fill (headerSize size n) := u64_of_lt (by
    unfold mappingSize at hfits
    omega)
  have hpages : MEMPAGE_SIZE ∣ n * FRAME_SIZE := Nat.dvd_mul_left_of_dvd (by decide) n
  have halloc : MEMPAGE_SIZE ∣ mappingSize size n := by
    rw [mappingSize, Nat.add_assoc]
    exact Nat.dvd_add hpages (dvd_add_fill _)
  have hsize : u64 (mappingSize size n) = mappingSize size n := u64_of_lt hfits
  unfold newMmap
  dsimp only
  rw [hframes, harray, hzone, if_neg (not_not_intro (Nat.mod_eq_zero_of_dvd hpages))]
  have hfill : (if MEMPAGE_SIZE - headerSize size n % MEMPAGE_SIZE = MEMPAGE_SIZE then 0
      else MEMPAGE_SIZE - headerSize size n % MEMPAGE_SIZE) = fill (headerSize size n) := rfl
  have hsum : n * FRAME_SIZE + headerSize size n + fill (headerSize size n) = mappingSize size n :=
    rfl
  rw [hfill, hsum, hsize, if_neg (not_not_intro (Nat.mod_eq_zero_of_dvd halloc)), hmmap, hdata]

/-- The data of the frames, as they are placed behind the header. -/
def dataStart (size : Sizeof) (n p : ℕ) : ℕ := p + (headerSize size n + fill (headerSize size n))

/-- The zone as it is laid out if no number overflows. -/
def laid (size : Sizeof) (n p poolFramesTotal : ℕ) : Poolzone where
  this := p
  allocSize := mappingSize size n
  framesTotal := n
  poolFramesTotal := poolFramesTotal + n
  lowFrame := 0
  highFrame := n - 1
  frames := (List.range' 0 n).map (place (dataStart size n p))

theorem laidOut_laid (hp : MEMPAGE_SIZE ∣ p) (hsize : (n - 1) * FRAME_SIZE < 2 ^ 31) :
    LaidOut size n p (laid size n p poolFramesTotal) := by
  have hdata : MEMPAGE_SIZE ∣ dataStart size n p := Nat.dvd_add hp (dvd_add_fill _)
  have htiles : Tiles FrameData.data FrameData.capacity (dataStart size n p)
      ((List.range' 0 n).map (place (dataStart size n p)))
        (dataStart size n p + n * FRAME_SIZE) := by
    simpa using tiles_place (k := n) (i := 0)
  constructor
  · rfl
  · rfl
  · refine ⟨dataStart size n p, ?_⟩
    rw [List.range_eq_range']
    rfl
  · intro i hi
    have hle : i * FRAME_SIZE ≤ (n - 1) * FRAME_SIZE := Nat.mul_le_mul_right _ (by omega)
    exact_mod_cast hle.trans_lt hsize
  · intro f hf
    obtain ⟨i, -, rfl⟩ := List.mem_map.mp hf
    exact Nat.dvd_add hdata (Nat.dvd_mul_left_of_dvd (by decide) i)
  · exact htiles.apart
  · intro f hf
    obtain ⟨hl, hu⟩ := htiles.mem_bounds hf
    constructor
    · rw [dataStart] at hl
      omega
    · rw [dataStart] at hu
      change _ ≤ p + mappingSize size n
      rw [mappingSize]
      omega
  · change MEMPAGE_SIZE ∣ mappingSize size n
    rw [mappingSize, Nat.add_assoc]
    exact Nat.dvd_add (Nat.dvd_mul_left_of_dvd (by decide) n) (dvd_add_fill _)

/-- Without overflow the zone is laid out. -/
theorem init_eq (hn : 0 < n) (hp : MEMPAGE_SIZE ∣ p) (hsize : (n - 1) * FRAME_SIZE < 2 ^ 31)
    (hpool : poolFramesTotal + n < 2 ^ 31) :
    init p (dataStart size n p) (mappingSize size n) n poolFramesTotal =
      .ok (laid size n p poolFramesTotal) := by
  have hdata : MEMPAGE_SIZE ∣ dataStart size n p := Nat.dvd_add hp (dvd_add_fill _)
  have hbelow : ¬dataStart size n p ≤ p := by
    have := size.poolzone_pos
    rw [dataStart, headerSize]
    omega
  have hin : ¬p + mappingSize size n ≤ dataStart size n p := by
    have : 0 < n * FRAME_SIZE := Nat.mul_pos hn (by decide)
    rw [dataStart, mappingSize]
    omega
  have htotal : toInt n = n := Int.bmod_eq_of_le (by omega) (by omega)
  have hint : int (poolFramesTotal + n) = .ok (poolFramesTotal + n : ℤ) := if_pos (by omega)
  have hframes : initFrames (dataStart size n p) 0 (n - 1) n 0 =
      .ok ((List.range' 0 n).map (place (dataStart size n p))) :=
    initFrames_eq hdata (by simpa using hsize) (by omega)
  rw [init, if_neg hn.ne', if_neg hbelow, if_neg hin, htotal]
  dsimp only
  rw [hint, ok_bind, if_neg (by omega), Int.toNat_natCast, hframes]
  rfl

theorem newMmap_laid (hn : 0 < n) (hfits : mappingSize size n < 2 ^ 64)
    (hmmap : mmap (mappingSize size n) = some p) (hp : MEMPAGE_SIZE ∣ p)
    (hsize : (n - 1) * FRAME_SIZE < 2 ^ 31) (hpool : poolFramesTotal + n < 2 ^ 31) :
    newMmap size mmap n poolFramesTotal = .ok (some (laid size n p poolFramesTotal)) := by
  rw [newMmap_eq hfits hmmap]
  change (do
    let this ← init p (dataStart size n p) (mappingSize size n) n poolFramesTotal
    return some this) = _
  rw [init_eq hn hp hsize hpool]
  rfl

/-- A zone with all its frames has no offset that overflows. -/
theorem init_ok {data allocSize : ℕ} (hn : 0 < n)
    (h : init p data allocSize n poolFramesTotal = .ok z) (htotal : z.framesTotal = n) :
    (n - 1) * FRAME_SIZE < 2 ^ 31 ∧ poolFramesTotal + n < 2 ^ 31 := by
  rw [init] at h
  split at h
  · cases h
  split at h
  · cases h
  split at h
  · cases h
  generalize toInt n = t at h
  obtain ⟨total, hint, h⟩ := bind_ok h
  split at h
  · cases h
  obtain ⟨frames, hframes, h⟩ := bind_ok h
  cases h
  obtain rfl : t = n := htotal
  obtain ⟨-, -, hlt⟩ := int_ok hint
  refine ⟨?_, by exact_mod_cast hlt⟩
  rw [Int.toNat_natCast] at hframes
  obtain ⟨k, rfl⟩ := Nat.exists_eq_succ_of_ne_zero hn.ne'
  simpa using initFrames_ok hframes

/-- A zone of `n` frames is laid out exactly when the offset of the last frame and the counter of
the pool are `int`s. -/
theorem newMmap_laidOut_iff (hn : 0 < n) (hfits : mappingSize size n < 2 ^ 64)
    (hmmap : mmap (mappingSize size n) = some p) (hp : MEMPAGE_SIZE ∣ p) :
    (∃ z, newMmap size mmap n poolFramesTotal = .ok (some z) ∧ LaidOut size n p z) ↔
      (n - 1) * FRAME_SIZE < 2 ^ 31 ∧ poolFramesTotal + n < 2 ^ 31 := by
  rw [newMmap_eq hfits hmmap]
  constructor
  · rintro ⟨z, hz, hlaid⟩
    obtain ⟨z', hinit, h⟩ := bind_ok hz
    cases h
    exact init_ok hn hinit hlaid.framesTotal
  · rintro ⟨hsize, hpool⟩
    rw [← newMmap_eq hfits hmmap]
    exact ⟨_, newMmap_laid hn hfits hmmap hp hsize hpool, laidOut_laid hp hsize⟩

end Mapping

section Examples

/-- The sizes on a 64-bit system. -/
def sizes64 : Sizeof := ⟨72, 200, by decide⟩

theorem newMmap_laidOut_sixteen :
    (∃ z, newMmap sizes64 (fun _ => some 4096) 16 0 = .ok (some z) ∧ LaidOut sizes64 16 4096 z) ↔
      (16 - 1) * FRAME_SIZE < 2 ^ 31 ∧ 0 + 16 < 2 ^ 31 :=
  newMmap_laidOut_iff (by decide) (by decide) rfl (by decide)

/-- A zone of more than 2 GiB has an offset that overflows. -/
theorem not_newMmap_laidOut : ¬∀ (size : Sizeof) (mmap : ℕ → Option ℕ) (n p : ℕ), 0 < n →
    mappingSize size n < 2 ^ 64 → mmap (mappingSize size n) = some p → MEMPAGE_SIZE ∣ p →
      ∃ z, newMmap size mmap n 0 = .ok (some z) ∧ LaidOut size n p z := by
  intro h
  obtain ⟨z, -, hlaid⟩ := h sizes64 (fun _ => some 4096) 104859 4096 (by decide) (by decide) rfl
    (by decide)
  exact absurd (hlaid.offset 104858 (by decide)) (by decide)

end Examples

end Poolzone

end FrameTransporter
