import FrameTransporter.Mempool.Layout

/-! # Appending to a vector

Three operations append a text at the position of a vector: bytes, a C string and
the output of `vsnprintf`. Each should store the text inside of the vector and
move its position behind it, or refuse it and leave the vector alone. This is
proved for every text up to the sums that overflow; of the formatted output the
texts that miss are named.
-/

namespace FrameTransporter

open Intrusive

/-- The operations that append a text to a vector. -/
inductive AppendOp
  | cat
  | strcat
  | vsprintf
  deriving DecidableEq, Repr

namespace AppendOp

/-- The text that an operation appends; a C string ends at its first zero. -/
def text : AppendOp → List UInt8 → List UInt8
  | strcat, t => t.takeWhile (· ≠ 0)
  | _, t => t

/-- The operation on the vector `v` at an index. The text of `vsprintf` is formatted. -/
def exec (x : Frame) (i : ℕ) (v : Vec) (t : List UInt8) : AppendOp → Bool × Frame
  | cat => x.cat i v t
  | strcat => x.strcat i v t
  | vsprintf => x.vsprintf i v (some t)

/-- The condition under which an operation appends exactly. The size of a C string or of bytes is
added to the position without overflow, or the sum is too large nevertheless; formatted output
needs room in the vector, and it fills all of this room but one byte only with a zero at its end. -/
def Exact (v : Vec) (t : List UInt8) : AppendOp → Prop
  | vsprintf => v.position < v.limit ∧
      (v.position + t.length + 1 = v.limit → ∀ b ∈ t.getLast?, b = 0)
  | op => v.limit < v.position + (op.text t).length →
      v.limit < u64 (v.position + (op.text t).length)

end AppendOp

namespace Frame

/-- The result of appending the text `t` to the vector `v` at an index of the frame `x`: no byte
outside of the vector's room is written, and the text is stored and the position moved behind it,
or nothing about the vectors changes. -/
structure Appended (x : Frame) (i : ℕ) (v : Vec) (t : List UInt8) (r : Bool × Frame) : Prop where
  outside : ∀ k, k < v.offset + v.position ∨ v.offset + v.limit ≤ k → r.2.data k = x.data k
  taken : r.1 = true → v.position + t.length ≤ v.limit ∧
    r.2.vecs = x.vecs.set i (v.at (v.position + t.length)) ∧
    slice r.2.data (v.offset + v.position) t.length = t
  refused : r.1 = false → r.2.vecs = x.vecs

/-- Whatever the memory of the frame holds, the operation appends the text or refuses it. -/
def Appends (x : Frame) (i : ℕ) (v : Vec) (t : List UInt8) (op : AppendOp) : Prop :=
  ∀ data, Appended { x with data } i v (op.text t) (op.exec { x with data } i v t)

section Appends

variable {x : Frame} {i : ℕ} {v : Vec} {t bs : List UInt8}

theorem u16_of_le {n m : ℕ} (h : n ≤ m) (hm : m < 2 ^ 16) : u16 n = n :=
  Nat.mod_eq_of_lt (h.trans_lt hm)

/-- Storing bytes within the room of a vector changes nothing else. -/
theorem write_outside {k : ℕ} (h : v.position + bs.length ≤ v.limit)
    (hk : k < v.offset + v.position ∨ v.offset + v.limit ≤ k) :
    (x.write (v.offset + v.position) bs).data k = x.data k := by
  rcases hk with hk | hk
  · exact splice_of_lt hk
  · exact splice_of_ge (by omega)

theorem appended_refused : Appended x i v t (false, x) where
  outside _ _ := rfl
  taken := by rintro ⟨⟩
  refused _ := rfl

/-- The text is stored, with a zero behind it or not, and the position is moved. -/
theorem appended_taken (hv : x.vecs[i]? = some v) (hn : v.limit < 2 ^ 16)
    (h : v.position + bs.length ≤ v.limit) (ht : t <+: bs) :
    Appended x i v t (true, (x.write (v.offset + v.position) bs).modifyVec i fun v =>
      { v with position := u16 (v.position + t.length) }) := by
  have hle : v.position + t.length ≤ v.limit := by
    have := ht.length_le
    omega
  refine ⟨fun k hk => write_outside h hk, fun _ => ⟨hle, ?_, ?_⟩, by rintro ⟨⟩⟩
  · have hset := modify_eq_set_of_getElem?
      (fun v : Vec => { v with position := u16 (v.position + t.length) }) hv
    rw [u16_of_le hle hn] at hset
    exact hset
  · change slice (splice x.data _ bs) _ _ = t
    rw [← slice_take ht.length_le, slice_splice_self]
    exact (List.prefix_iff_eq_take.mp ht).symm

/-- Bytes are appended exactly unless their size wraps. -/
theorem appended_cat_iff (hv : x.vecs[i]? = some v) (hn : v.limit < 2 ^ 16) :
    Appended x i v t (x.cat i v t) ↔
      (v.limit < v.position + t.length → v.limit < u64 (v.position + t.length)) := by
  unfold cat
  split_ifs with h
  · exact iff_of_true appended_refused fun _ => h
  · constructor
    · intro ha hlt
      exact absurd (ha.taken rfl).1 (not_le.mpr hlt)
    · intro hsize
      have hle : v.position + t.length ≤ v.limit := by
        by_contra hlt
        exact h (hsize (not_le.mp hlt))
      exact appended_taken hv hn hle (List.prefix_refl t)

/-- The room of a vector without the byte that `vsnprintf` leaves out. -/
theorem toSize_room (h : v.position < v.limit) :
    toSize (v.limit - v.position - 1 : ℤ) = v.limit - v.position - 1 := by
  rw [show (v.limit - v.position - 1 : ℤ) = v.limit - (v.position + 1 : ℕ) by omega,
    toSize_sub (by omega), Nat.sub_sub]

theorem toSize_neg_one : toSize (-1) = 2 ^ 64 - 1 := by decide

/-- The frame after `vsnprintf` printed the text at the position of a vector, with a size. -/
def printed (x : Frame) (v : Vec) (t : List UInt8) (size : ℕ) : Frame :=
  if size = 0 then x else x.write (v.offset + v.position) (t.take (size - 1) ++ [0])

theorem vsprintf_refused {n : ℕ} (hroom : toSize (v.limit - v.position - 1 : ℤ) = n)
    (h : n < t.length) : x.vsprintf i v (some t) = (false, x.printed v t n) := by
  unfold vsprintf
  dsimp only
  rw [hroom, if_pos h]
  rfl

theorem vsprintf_taken {n : ℕ} (hroom : toSize (v.limit - v.position - 1 : ℤ) = n)
    (h : t.length ≤ n) : x.vsprintf i v (some t) =
      (true, (x.printed v t n).modifyVec i fun v =>
        { v with position := u16 (v.position + t.length) }) := by
  unfold vsprintf
  dsimp only
  rw [hroom, if_neg (not_lt.mpr h)]
  rfl

/-- Into a full vector `vsnprintf` writes behind its limit. -/
theorem vsprintf_full (h : v.position = v.limit) (hdata : x.data (v.offset + v.limit) ≠ t.headD 0) :
    ¬Appended x i v t (x.vsprintf i v (some t)) := by
  intro ha
  have hroom : toSize (v.limit - v.position - 1 : ℤ) = 2 ^ 64 - 1 := by
    rw [h, sub_self, zero_sub, toSize_neg_one]
  have hw : (x.printed v t (2 ^ 64 - 1)).data (v.offset + v.limit) = t.headD 0 := by
    rw [printed, if_neg (by norm_num), h]
    cases t <;> simp [write, splice]
  have hout := ha.outside _ (Or.inr le_rfl)
  rcases lt_or_ge (2 ^ 64 - 1) t.length with hlong | hle
  · rw [vsprintf_refused hroom hlong] at hout
    exact hdata (hout.symm.trans hw)
  · rw [vsprintf_taken hroom hle] at hout
    exact hdata (hout.symm.trans hw)

/-- Formatted output that leaves at least two bytes of the room is appended exactly, and output
longer than the room less one byte is refused. -/
theorem appended_vsprintf (hv : x.vecs[i]? = some v) (hn : v.limit < 2 ^ 16)
    (h : v.position < v.limit) (ht : v.position + t.length + 1 ≠ v.limit) :
    Appended x i v t (x.vsprintf i v (some t)) := by
  rcases lt_or_ge (v.limit - v.position - 1) t.length with hlong | hle
  · rw [vsprintf_refused (toSize_room h) hlong, printed]
    split_ifs with hzero
    · exact appended_refused
    · refine ⟨fun k hk => write_outside ?_ hk, by rintro ⟨⟩, fun _ => rfl⟩
      simp only [List.length_append, List.length_take, List.length_singleton]
      omega
  · rw [vsprintf_taken (toSize_room h) hle, printed, if_neg (by omega),
      List.take_of_length_le (by omega)]
    refine appended_taken hv hn ?_ (List.prefix_append t [0])
    simp only [List.length_append, List.length_singleton]
    omega

/-- Of output that fills the room but one byte, the last byte is replaced by a zero. -/
theorem appended_vsprintf_last (hv : x.vecs[i]? = some v) (hn : v.limit < 2 ^ 16)
    (ht : v.position + t.length + 1 = v.limit) :
    Appended x i v t (x.vsprintf i v (some t)) ↔ ∀ b ∈ t.getLast?, b = 0 := by
  have hroom : toSize (v.limit - v.position - 1 : ℤ) = t.length := by
    rw [toSize_room (by omega)]
    omega
  rw [vsprintf_taken hroom le_rfl]
  rcases List.eq_nil_or_concat' t with rfl | ⟨t, b, rfl⟩
  · have hwrite : x.printed v [] 0 = x.write (v.offset + v.position) [] := by
      have hsplice : splice x.data (v.offset + v.position) [] = x.data := by
        funext k
        simp [splice]
      rw [printed, if_pos rfl, write, hsplice]
    have hle : v.position + ([] : List UInt8).length ≤ v.limit := by omega
    rw [List.length_nil, hwrite]
    exact iff_of_true (appended_taken hv hn hle (List.prefix_refl _)) (by simp)
  · have hwrite : x.printed v (t ++ [b]) (t ++ [b]).length =
        x.write (v.offset + v.position) (t ++ [0]) := by
      simp [printed]
    rw [hwrite]
    constructor
    · intro ha c hc
      obtain rfl : b = c := by simpa using hc
      have hs := (ha.taken rfl).2.2
      have hlen : (t ++ [b]).length = (t ++ [0]).length := by simp
      rw [hlen] at hs
      have hs : t ++ [0] = t ++ [b] := slice_splice_self.symm.trans hs
      simpa using hs.symm
    · intro hb
      obtain rfl : b = 0 := hb b (by simp)
      exact appended_taken hv hn (by omega) (List.prefix_refl _)

/-- An operation appends every text exactly if and only if the text meets its condition. -/
theorem appends_iff (op : AppendOp) (hv : x.vecs[i]? = some v) (ho : v.Ordered)
    (hn : v.capacity < 2 ^ 16) : x.Appends i v t op ↔ op.Exact v t := by
  have hl : v.limit < 2 ^ 16 := ho.limit.trans_lt hn
  cases op with
  | cat =>
    have hcat (data) := appended_cat_iff (x := { x with data }) (t := t) hv hl
    exact ⟨fun h => (hcat fun _ => 0).mp (h _), fun h data => (hcat data).mpr h⟩
  | strcat =>
    have hcat (data) := appended_cat_iff (x := { x with data }) (t := t.takeWhile (· ≠ 0)) hv hl
    exact ⟨fun h => (hcat fun _ => 0).mp (h _), fun h data => (hcat data).mpr h⟩
  | vsprintf =>
    constructor
    · intro h
      have hlt : v.position < v.limit := by
        refine lt_of_le_of_ne ho.position fun heq => ?_
        refine vsprintf_full (x := { x with data := fun _ => t.headD 0 + 1 }) heq ?_ (h _)
        have hne (b : UInt8) : b + 1 ≠ b := by simp
        exact hne _
      exact ⟨hlt, fun ht => (appended_vsprintf_last (x := { x with data := fun _ => 0 })
        hv hl ht).mp (h _)⟩
    · rintro ⟨hlt, hlast⟩ data
      by_cases ht : v.position + t.length + 1 = v.limit
      · exact (appended_vsprintf_last (x := { x with data }) hv hl ht).mpr (hlast ht)
      · exact appended_vsprintf (x := { x with data }) hv hl hlt ht

/-- A text of two letters fits a vector of eight bytes that holds four. -/
theorem appends_iff_two : Appends { Pool.frameInit none with vecs := [⟨0, 4, 8, 8⟩] } 0
    ⟨0, 4, 8, 8⟩ [97, 98] .vsprintf :=
  (appends_iff .vsprintf rfl ⟨by decide, by decide⟩ (by decide)).mpr
    ⟨by decide, fun h => absurd h (by decide)⟩

/-- A text of three letters leaves one of the four bytes of room, and its last letter is lost. -/
theorem not_appends_last : ¬Appends { Pool.frameInit none with vecs := [⟨0, 4, 8, 8⟩] } 0
    ⟨0, 4, 8, 8⟩ [97, 98, 99] .vsprintf := by
  intro h
  have hs := ((h fun _ => 0).taken (by decide)).2.2
  exact absurd hs (by decide)

end Appends

end Frame

end FrameTransporter
