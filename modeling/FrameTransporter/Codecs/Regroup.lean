import Mathlib.Data.List.Basic
import Mathlib.Data.Nat.Bitwise

/-! # Digits of another width

A list of digits stands for a string of bits, the most significant bit of each digit
first. The string cut into digits of another width, the last of them filled up with
zeros, can be cut back, and the whole digits that were kept are read back.
-/

namespace Codecs

section Words

variable {n p : ℕ} {l : List Bool}

/-- The number that bits stand for, the most significant one first. -/
def ofBits : List Bool → ℕ
  | [] => 0
  | b :: l => b.toNat * 2 ^ l.length + ofBits l

theorem ofBits_lt : ofBits l < 2 ^ l.length := by
  induction l with
  | nil => decide
  | cons b l ih =>
    rw [ofBits, List.length_cons, Nat.pow_succ]
    cases b <;> simp <;> omega

/-- The bits of a number are those it was made of. -/
theorem testBit_ofBits (h : p < l.length) :
    (ofBits l).testBit (l.length - 1 - p) = l.getD p false := by
  induction l generalizing p with
  | nil => simp at h
  | cons b l ih =>
    have hlt : ofBits l < 2 ^ l.length := ofBits_lt
    rw [ofBits, List.length_cons, Nat.add_sub_cancel]
    cases p with
    | zero =>
      rw [Nat.sub_zero, Nat.mul_comm, Nat.testBit_two_pow_mul_add _ hlt, if_neg (by omega)]
      cases b <;> simp
    | succ p =>
      have hp : p < l.length := by simpa using h
      have hsub : l.length - (p + 1) = l.length - 1 - p := by omega
      rw [Nat.mul_comm, Nat.testBit_two_pow_mul_add _ hlt, if_pos (by omega), hsub, ih hp]
      rfl

/-- The `n` last bits of a number. -/
def bits (n d : ℕ) : List Bool := (List.range n).map fun t => d.testBit (n - 1 - t)

@[simp] theorem length_bits {d : ℕ} : (bits n d).length = n := by simp [bits]

/-- A number of `n` bits is the number of its bits. -/
theorem ofBits_bits {d : ℕ} (h : d < 2 ^ n) : ofBits (bits n d) = d := by
  refine Nat.eq_of_testBit_eq fun i => ?_
  by_cases hi : i < n
  · have hp : n - 1 - i < (bits n d).length := by
      rw [length_bits]
      omega
    have hb := testBit_ofBits hp
    have hsub : n - 1 - (n - 1 - i) = i := by omega
    rw [length_bits, hsub] at hb
    have hlt : n - 1 - i < n := by omega
    rw [hb]
    simp [bits, hlt, hsub]
  · have hpow : 2 ^ n ≤ 2 ^ i := Nat.pow_le_pow_right (by omega) (by omega)
    have hlt : ofBits (bits n d) < 2 ^ (bits n d).length := ofBits_lt
    rw [length_bits] at hlt
    rw [Nat.testBit_lt_two_pow (by omega), Nat.testBit_lt_two_pow (by omega)]

end Words

section Strings

variable {v w k m n i p : ℕ} {ds : List ℕ}

/-- The bit number `p` of a string of digits of `v` bits. -/
def bitAt (v : ℕ) (ds : List ℕ) (p : ℕ) : Bool := (ds.getD (p / v) 0).testBit (v - 1 - p % v)

/-- The digit number `i` of `w` bits in a string of digits of `v` bits. -/
def digitAt (v w : ℕ) (ds : List ℕ) (i : ℕ) : ℕ :=
  ofBits ((List.range w).map fun t => bitAt v ds (w * i + t))

/-- The first `n` digits of `w` bits in a string of digits of `v` bits. -/
def regroup (v w n : ℕ) (ds : List ℕ) : List ℕ := (List.range n).map (digitAt v w ds)

@[simp] theorem length_regroup : (regroup v w n ds).length = n := by simp [regroup]

theorem regroup_getD (hi : i < n) : (regroup v w n ds).getD i 0 = digitAt v w ds i := by
  simp [regroup, hi]

theorem digitAt_lt : digitAt v w ds i < 2 ^ w := by
  have hlt : digitAt v w ds i < 2 ^ ((List.range w).map fun t => bitAt v ds (w * i + t)).length :=
    ofBits_lt
  simpa using hlt

/-- The string of bits stays the same. -/
theorem bitAt_regroup (hp : p < w * n) : bitAt w (regroup v w n ds) p = bitAt v ds p := by
  have hw : 0 < w := Nat.pos_of_mul_pos_right (by omega : 0 < w * n)
  have hi : p / w < n := Nat.div_lt_of_lt_mul hp
  have ht : p % w < w := Nat.mod_lt _ hw
  have hlen : ((List.range w).map fun t => bitAt v ds (w * (p / w) + t)).length = w := by simp
  have hb := testBit_ofBits (p := p % w) (by rwa [hlen])
  rw [hlen] at hb
  rw [bitAt, regroup_getD hi, digitAt, hb]
  simp [ht, Nat.div_add_mod]

/-- The digits of their own width are the digits. -/
theorem digitAt_self (hv : 0 < v) (hd : ds.getD i 0 < 2 ^ v) : digitAt v v ds i = ds.getD i 0 := by
  have hbits : (List.range v).map (fun t => bitAt v ds (v * i + t)) = bits v (ds.getD i 0) := by
    refine List.map_congr_left fun t ht => ?_
    have ht : t < v := List.mem_range.mp ht
    rw [bitAt, Nat.mul_add_div hv, Nat.div_eq_of_lt ht, Nat.add_zero, Nat.mul_add_mod,
      Nat.mod_eq_of_lt ht]
  rw [digitAt, hbits, ofBits_bits hd]

/-- The digits that lie within the kept part of the string are read back. -/
theorem regroup_regroup (hv : 0 < v) (hds : ∀ d ∈ ds, d < 2 ^ v) (hm : v * m ≤ w * n)
    (hl : m ≤ ds.length) : regroup w v m (regroup v w n ds) = ds.take m := by
  apply List.ext_getElem
  · simp [hl]
  · intro i hi hi'
    have hi : i < m := by simpa using hi
    have hmul : v * (i + 1) ≤ v * m := Nat.mul_le_mul_left v hi
    have hbits : (List.range v).map (fun t => bitAt w (regroup v w n ds) (v * i + t)) =
        (List.range v).map fun t => bitAt v ds (v * i + t) := by
      refine List.map_congr_left fun t ht => bitAt_regroup ?_
      have ht : t < v := List.mem_range.mp ht
      rw [Nat.mul_succ] at hmul
      omega
    have hlt : i < ds.length := by omega
    have hd : ds.getD i 0 = ds[i] := by simp [hlt]
    have hself : digitAt v v ds i = ds.getD i 0 := by
      refine digitAt_self hv ?_
      rw [hd]
      exact hds _ (List.getElem_mem hlt)
    rw [digitAt, hd] at hself
    simp only [regroup, List.getElem_map, List.getElem_range, List.getElem_take] at *
    rw [digitAt]
    exact (congrArg ofBits hbits).trans hself

end Strings

end Codecs
