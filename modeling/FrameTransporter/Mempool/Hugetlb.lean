import Mathlib.Data.Nat.Find
import FrameTransporter.Mempool.Zone

/-! # Zones in huge pages

The first zone of a pool may fill a huge page. The number of its frames is found by
counting down from an estimate without the header, until the mapping fits. The
count and the size of its frames are `int`s, so a huge page of more than 2 GiB
overflows them. A smaller one holds as many frames as fit.
-/

namespace FrameTransporter

namespace Poolzone

/-- A number computed as a `long`, which is undefined if it overflows. -/
def long (z : ℤ) : Except Fault ℤ := if -2 ^ 63 ≤ z ∧ z < 2 ^ 63 then .ok z else .error .misuse

/-- The loop of `ft_pool_alloc_hugetlb`, for a count that is decremented at most `k` times before
it overflows. -/
def countFrames (size : Sizeof) (hugetlbSize : ℤ) : ℕ → ℤ → Except Fault ℤ
  | 0, _ => .error .misuse
  | k + 1, frameCount => do
    let frameCount := frameCount - 1
    let mmapSizeFrames ← int (frameCount * FRAME_SIZE)
    let mmapSizeZone := u64 (size.poolzone + u64 (toSize frameCount * size.frame))
    let mmapSizeFill := MEMPAGE_SIZE - mmapSizeZone % MEMPAGE_SIZE
    let mmapSizeFill := if mmapSizeFill = MEMPAGE_SIZE then 0 else mmapSizeFill
    let allocSize := u64 (toSize mmapSizeFrames + mmapSizeZone + mmapSizeFill)
    -- the signed size of the page is compared as a `size_t`
    if toSize hugetlbSize < allocSize then countFrames size hugetlbSize k frameCount
    else return frameCount

/-- The number of frames that `ft_pool_alloc_hugetlb` asks for. The estimate is a `long` stored
into an `int`. -/
def hugetlbFrameCount (size : Sizeof) (hugetlbSize : ℤ) : Except Fault ℤ := do
  let rest ← long (hugetlbSize - MEMPAGE_SIZE)
  let frameCount ← int ((rest.tdiv FRAME_SIZE).bmod (2 ^ 32) + 1)
  countFrames size hugetlbSize (frameCount + 2 ^ 31).toNat frameCount

/-- `ft_pool_alloc_default`, for a pool with a number of zones. -/
def allocDefault (size : Sizeof) (mmap : ℕ → Option ℕ) (zones poolFramesTotal : ℕ) :
    Except Fault (Option Poolzone) :=
  match zones with
  | 0 => newMmap size mmap 16 poolFramesTotal
  | 1 => newMmap size mmap 2045 poolFramesTotal
  | _ => return none

/-- `ft_pool_alloc_hugetlb`, where `mmap` gives an address for a size, in huge pages or not. The
size in kilobytes is what `strtol` reads behind `Hugepagesize:` in `/proc/meminfo`, null if the file
cannot be read or does not have it. -/
def allocHugetlb (size : Sizeof) (mmap : Bool → ℕ → Option ℕ) (hugepagesize : Option ℤ)
    (zones poolFramesTotal : ℕ) : Except Fault (Option Poolzone) :=
  match zones, hugepagesize with
  | 0, some kB => do
    let hugetlbSize ← long (kB * 1024)
    let frameCount ← hugetlbFrameCount size hugetlbSize
    match ← newMmap size (mmap true) (toSize frameCount) poolFramesTotal with
    | some ret => return some ret
    | none => allocDefault size (mmap false) zones poolFramesTotal
  | _, _ => allocDefault size (mmap false) zones poolFramesTotal

section Sizes

variable {size : Sizeof} {n H : ℕ}

/-- A header has at least one page. -/
theorem page_le_header (size : Sizeof) (n : ℕ) :
    MEMPAGE_SIZE ≤ headerSize size n + fill (headerSize size n) := by
  have hpos : 0 < headerSize size n := Nat.add_pos_left size.poolzone_pos _
  exact Nat.le_of_dvd (by omega) (dvd_add_fill _)

/-- A mapping that fits has no more frames than the estimate. -/
theorem le_estimate (h : mappingSize size n ≤ H) : n ≤ (H - MEMPAGE_SIZE) / FRAME_SIZE := by
  have hpage := page_le_header size n
  rw [Nat.le_div_iff_mul_le (by decide)]
  unfold mappingSize at h
  omega

/-- If a descriptor fits in a page with the header, so does a page for each frame. -/
theorem headerSize_le (hsize : size.poolzone + size.frame ≤ MEMPAGE_SIZE) (hn : 0 < n) :
    headerSize size n ≤ n * MEMPAGE_SIZE := by
  obtain ⟨m, rfl⟩ := Nat.exists_eq_succ_of_ne_zero hn.ne'
  have hframe : size.frame ≤ MEMPAGE_SIZE := by omega
  have hmul : m * size.frame ≤ m * MEMPAGE_SIZE := Nat.mul_le_mul_left m hframe
  rw [headerSize, Nat.succ_mul, Nat.succ_mul]
  omega

theorem mappingSize_le (hsize : size.poolzone + size.frame ≤ MEMPAGE_SIZE) (hn : 0 < n) :
    mappingSize size n ≤ n * (FRAME_SIZE + MEMPAGE_SIZE) := by
  have hheader := headerSize_le hsize hn
  have hfill : headerSize size n + fill (headerSize size n) ≤ n * MEMPAGE_SIZE := by
    unfold fill MEMPAGE_SIZE at *
    split_ifs <;> omega
  rw [mappingSize, Nat.mul_add]
  omega

end Sizes

section Counting

variable {size : Sizeof} {n k H : ℕ} {c r : ℤ}

theorem long_of_lt (h : n < 2 ^ 63) : long n = .ok n := if_pos (by omega)

theorem toSize_natCast (n : ℕ) : toSize n = n := if_pos (Int.natCast_nonneg n)

/-- While the frames have an `int` as their size, the loop computes the size of the mapping. -/
theorem countFrames_succ (hsize : size.poolzone + size.frame ≤ MEMPAGE_SIZE) (hn : 0 < n)
    (hframes : n * FRAME_SIZE < 2 ^ 31) : countFrames size H (k + 1) (n + 1) =
      if H < mappingSize size n then countFrames size H k n else .ok n := by
  have hmapping := mappingSize_le hsize hn
  have hlt : mappingSize size n < 2 ^ 64 := by
    unfold FRAME_SIZE MEMPAGE_SIZE at *
    omega
  have hint : int (n * FRAME_SIZE : ℕ) = .ok (n * FRAME_SIZE : ℕ) := if_pos (by omega)
  have harray : u64 (n * size.frame) = n * size.frame := u64_of_lt (by
    unfold mappingSize headerSize at hlt
    omega)
  have hzone : u64 (size.poolzone + n * size.frame) = headerSize size n := u64_of_lt (by
    unfold mappingSize headerSize at hlt
    omega)
  have halloc : u64 (n * FRAME_SIZE + headerSize size n + fill (headerSize size n)) =
      mappingSize size n := u64_of_lt hlt
  have hcount : (n + 1 - 1 : ℤ) = n := by omega
  push_cast at hint
  rw [countFrames]
  dsimp only
  rw [hcount, hint, ok_bind, toSize_natCast, toSize_natCast, ← Nat.cast_mul, toSize_natCast, harray,
    hzone]
  change (if H < u64 (n * FRAME_SIZE + headerSize size n + fill (headerSize size n)) then _
    else _) = _
  rw [halloc]
  rfl

/-- The loop ends with the last number of frames that fits. -/
theorem countFrames_eq (hsize : size.poolzone + size.frame ≤ MEMPAGE_SIZE)
    (hframes : n * FRAME_SIZE < 2 ^ 31) (hk : n < k)
    (hfits : ∃ m, 0 < m ∧ m ≤ n ∧ mappingSize size m ≤ H) : countFrames size H k (n + 1) =
      .ok (Nat.findGreatest (fun m => mappingSize size m ≤ H) n : ℕ) := by
  induction n generalizing k with
  | zero =>
    obtain ⟨m, hpos, hle, -⟩ := hfits
    omega
  | succ n ih =>
    obtain ⟨k, rfl⟩ := Nat.exists_eq_succ_of_ne_zero (Nat.ne_zero_of_lt hk)
    rw [Nat.succ_eq_add_one, countFrames_succ hsize n.succ_pos hframes]
    split_ifs with hlt
    · have hnot : ¬mappingSize size (n + 1) ≤ H := not_le.mpr hlt
      have hmore : ∃ m, 0 < m ∧ m ≤ n ∧ mappingSize size m ≤ H := by
        obtain ⟨m, hpos, hle, hm⟩ := hfits
        refine ⟨m, hpos, ?_, hm⟩
        rcases Nat.le_succ_iff.mp hle with hle | rfl
        · exact hle
        · exact absurd hm hnot
      have hless : n * FRAME_SIZE < 2 ^ 31 := by
        rw [Nat.succ_mul] at hframes
        omega
      rw [Nat.findGreatest_of_not (P := fun m => mappingSize size m ≤ H) hnot]
      exact ih hless (by omega) hmore
    · rw [Nat.findGreatest_eq (P := fun m => mappingSize size m ≤ H) (not_lt.mp hlt)]

/-- The loop ends below the count that it starts with, which has frames of an `int`'s size. -/
theorem countFrames_ok {hugetlbSize : ℤ} (h : countFrames size hugetlbSize k c = .ok r) :
    r < c ∧ (c - 1) * FRAME_SIZE < 2 ^ 31 := by
  induction k generalizing c with
  | zero => cases h
  | succ k ih =>
    unfold countFrames at h
    obtain ⟨z, hint, h⟩ := bind_ok h
    obtain ⟨-, -, hlt⟩ := int_ok hint
    refine ⟨?_, hlt⟩
    dsimp only at h
    generalize u64 (toSize z + _ + _) = allocSize at h
    split at h
    · have hless := (ih h).1
      omega
    · cases h
      omega

/-- The count starts one above the estimate, if an `int` holds it. -/
theorem hugetlbFrameCount_eq (hH : MEMPAGE_SIZE ≤ H) (hlong : H < 2 ^ 63) :
    hugetlbFrameCount size H = (do
      let c ← int ((((H - MEMPAGE_SIZE) / FRAME_SIZE : ℕ) : ℤ).bmod (2 ^ 32) + 1)
      countFrames size H (c + 2 ^ 31).toNat c) := by
  have hrest : (H - MEMPAGE_SIZE : ℤ) = (H - MEMPAGE_SIZE : ℕ) := (Nat.cast_sub hH).symm
  rw [hugetlbFrameCount, hrest, long_of_lt (by omega), ok_bind]
  rfl

end Counting

/-- The mapping of `n` frames, counted for a huge page of `H` bytes: no more frames fit, and the
zone is laid out in the page. -/
structure Sized (size : Sizeof) (H n : ℕ) : Prop where
  count : hugetlbFrameCount size H = .ok n
  greatest : IsGreatest {n | mappingSize size n ≤ H} n
  positive : 0 < n
  mapped : ∀ mmap p, mmap true (mappingSize size n) = some p → MEMPAGE_SIZE ∣ p →
    ∃ z, allocHugetlb size mmap (some (H / 1024)) 0 0 = .ok (some z) ∧ LaidOut size n p z ∧
      z.allocSize ≤ H

section Pages

variable {size : Sizeof} {n H : ℕ}

/-- A count that fits is mapped and laid out. -/
theorem allocHugetlb_laid (h1024 : 1024 ∣ H) (hlong : H < 2 ^ 63)
    (hcount : hugetlbFrameCount size H = .ok n) (hn : 0 < n) (hfits : mappingSize size n ≤ H)
    (hframes : n * FRAME_SIZE < 2 ^ 31) {mmap : Bool → ℕ → Option ℕ} {p : ℕ}
    (hmmap : mmap true (mappingSize size n) = some p) (hp : MEMPAGE_SIZE ∣ p) :
    ∃ z, allocHugetlb size mmap (some (H / 1024)) 0 0 = .ok (some z) ∧ LaidOut size n p z ∧
      z.allocSize ≤ H := by
  have hoffset : (n - 1) * FRAME_SIZE < 2 ^ 31 :=
    (Nat.mul_le_mul_right _ (Nat.sub_le n 1)).trans_lt hframes
  have hpool : 0 + n < 2 ^ 31 := by
    unfold FRAME_SIZE at hframes
    omega
  have hkB : (H / 1024 * 1024 : ℤ) = H := by
    have hmul := Nat.div_mul_cancel h1024
    exact_mod_cast hmul
  have hz := newMmap_laid hn (hfits.trans_lt (by omega)) hmmap hp hoffset hpool
  refine ⟨laid size n p 0, ?_, laidOut_laid hp hoffset, hfits⟩
  rw [allocHugetlb]
  rw [hkB, long_of_lt hlong, ok_bind, hcount, ok_bind, toSize_natCast, hz]
  rfl

/-- The last number of frames that fits is below the estimate. -/
theorem isGreatest_findGreatest (h : mappingSize size 1 ≤ H) :
    IsGreatest {n | mappingSize size n ≤ H} (Nat.findGreatest (fun n => mappingSize size n ≤ H)
      ((H - MEMPAGE_SIZE) / FRAME_SIZE)) := by
  constructor
  · exact Nat.findGreatest_spec (P := fun n => mappingSize size n ≤ H) (le_estimate h) h
  · intro n hn
    exact Nat.le_findGreatest (le_estimate hn) hn

/-- If the estimate is no `int`, more frames fit than an `int` has the size of. -/
theorem fits_of_estimate (hsize : size.poolzone + size.frame ≤ MEMPAGE_SIZE)
    (h : 2 ^ 31 ≤ (H - MEMPAGE_SIZE) / FRAME_SIZE) : mappingSize size 104858 ≤ H := by
  have hmapping := mappingSize_le hsize (n := 104858) (by decide)
  rw [Nat.le_div_iff_mul_le (by decide)] at h
  unfold FRAME_SIZE MEMPAGE_SIZE at *
  omega

/-- A zone that is counted has frames of an estimate whose size is an `int`. -/
theorem Sized.estimate (h : Sized size H n) (hH : MEMPAGE_SIZE + FRAME_SIZE ≤ H)
    (hlong : H < 2 ^ 63) (hsize : size.poolzone + size.frame ≤ MEMPAGE_SIZE) :
    (H - MEMPAGE_SIZE) / FRAME_SIZE * FRAME_SIZE < 2 ^ 31 := by
  have hcount := h.count
  have hmany := fits_of_estimate (H := H) hsize
  rw [hugetlbFrameCount_eq (le_of_add_le_left hH) hlong] at hcount
  generalize (H - MEMPAGE_SIZE) / FRAME_SIZE = q at *
  obtain ⟨c, hint, hloop⟩ := bind_ok hcount
  obtain ⟨hc, -⟩ := int_ok hint
  obtain ⟨hless, hframes⟩ := countFrames_ok hloop
  rw [hc, add_sub_cancel_right] at hframes
  by_cases hq : q < 2 ^ 31
  · -- the estimate is an `int`, and the first pass computes the size of its frames
    rw [Int.bmod_eq_of_le (by omega) (by omega)] at hframes
    exact_mod_cast hframes
  · -- the estimate is cut to fewer frames than fit
    have hmore : 104858 ≤ n := h.greatest.2 (hmany (not_lt.mp hq))
    unfold FRAME_SIZE at hframes
    omega

/-- An estimate whose frames have an `int` as their size leads to the last number that fits. -/
theorem hugetlbFrameCount_findGreatest (hH : MEMPAGE_SIZE ≤ H) (hlong : H < 2 ^ 63)
    (hsize : size.poolzone + size.frame ≤ MEMPAGE_SIZE) (hone : mappingSize size 1 ≤ H)
    (hframes : (H - MEMPAGE_SIZE) / FRAME_SIZE * FRAME_SIZE < 2 ^ 31) :
    hugetlbFrameCount size H = .ok (Nat.findGreatest (fun n => mappingSize size n ≤ H)
      ((H - MEMPAGE_SIZE) / FRAME_SIZE) : ℕ) := by
  rw [hugetlbFrameCount_eq hH hlong]
  have hest := le_estimate hone
  generalize (H - MEMPAGE_SIZE) / FRAME_SIZE = q at *
  have hlt : q < 2 ^ 31 - 1 := by
    unfold FRAME_SIZE at hframes
    omega
  have hq : (q : ℤ).bmod (2 ^ 32) = q := Int.bmod_eq_of_le (by omega) (by omega)
  have hint : int (q + 1) = .ok (q + 1 : ℤ) := if_pos (by omega)
  have hk : q < ((q + 1 : ℤ) + 2 ^ 31).toNat := by
    have hpos : (0 : ℤ) < 2 ^ 31 := by positivity
    exact Int.lt_toNat.mpr (by linarith)
  rw [hq, hint, ok_bind, countFrames_eq hsize hframes hk ⟨1, Nat.one_pos, hest, hone⟩]

/-- A huge page has the zone with the most frames that fit exactly when the frames of the estimate
have an `int` as their size. -/
theorem sized_iff (h1024 : 1024 ∣ H) (hH : MEMPAGE_SIZE + FRAME_SIZE ≤ H) (hlong : H < 2 ^ 63)
    (hsize : size.poolzone + size.frame ≤ MEMPAGE_SIZE) :
    (∃ n, Sized size H n) ↔ (H - MEMPAGE_SIZE) / FRAME_SIZE * FRAME_SIZE < 2 ^ 31 := by
  constructor
  · rintro ⟨n, h⟩
    exact h.estimate hH hlong hsize
  · intro hframes
    have hone : mappingSize size 1 ≤ H := by
      have hmapping := mappingSize_le hsize Nat.one_pos
      omega
    have hcount := hugetlbFrameCount_findGreatest (le_of_add_le_left hH) hlong hsize hone hframes
    have hgreatest := isGreatest_findGreatest hone
    have hpos := Nat.one_pos.trans_le (hgreatest.2 hone)
    have hle : Nat.findGreatest (fun n => mappingSize size n ≤ H)
        ((H - MEMPAGE_SIZE) / FRAME_SIZE) * FRAME_SIZE < 2 ^ 31 :=
      (Nat.mul_le_mul_right _ (Nat.findGreatest_le _)).trans_lt hframes
    exact ⟨_, hcount, hgreatest, hpos, fun mmap p hmmap hp =>
      allocHugetlb_laid h1024 hlong hcount hpos hgreatest.1 hle hmmap hp⟩

/-- A huge page of 2 MiB. -/
theorem sized_two_mebibytes : ∃ n, Sized sizes64 (2 * 2 ^ 20) n :=
  (sized_iff (by decide) (by decide) (by decide) (by decide)).mpr (by decide)

/-- The frames for a huge page of 16 GiB have no `int` as their size. -/
theorem not_sized_sixteen_gibibytes : ¬∀ (size : Sizeof) (H : ℕ), 1024 ∣ H →
    MEMPAGE_SIZE + FRAME_SIZE ≤ H → H < 2 ^ 63 → size.poolzone + size.frame ≤ MEMPAGE_SIZE →
      ∃ n, Sized size H n := by
  intro h
  obtain ⟨n, hn⟩ := h sizes64 (16 * 2 ^ 30) (by decide) (by decide) (by decide) (by decide)
  exact absurd (hn.estimate (by decide) (by decide) (by decide)) (by decide)

end Pages

end Poolzone

end FrameTransporter
