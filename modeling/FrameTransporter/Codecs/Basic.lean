import Mathlib.Algebra.NeZero
import Mathlib.Data.List.Basic
import Mathlib.Tactic.Ring

/-! # Codecs of fixed size

A codec writes a value as a fixed number of cells and reads it back, in both
directions without loss. Numbers below a power of 256 have one that puts the most
significant byte first. Codecs for the types of an indexed family give one for
sequences of values of these types.
-/

namespace Codecs

/-- Values written as a fixed number of cells. -/
structure Codec (β α : Type*) where
  size : ℕ
  encode : α → List β
  decode : List β → α
  length_encode : ∀ a, (encode a).length = size
  decode_encode : ∀ a, decode (encode a) = a
  encode_decode : ∀ bs : List β, bs.length = size → encode (decode bs) = bs

section BigEndian

variable {k m n : ℕ} {bs : List UInt8}

/-- The `k` last bytes of a number, the most significant one first. -/
def bigEndian : ℕ → ℕ → List UInt8
  | 0, _ => []
  | k + 1, n => UInt8.ofNat (n / 2 ^ (8 * k)) :: bigEndian k n

/-- The number that bytes stand for, the most significant one first. -/
def ofBytes : List UInt8 → ℕ
  | [] => 0
  | b :: bs => 2 ^ (8 * bs.length) * b.toNat + ofBytes bs

@[simp] theorem length_bigEndian : (bigEndian k n).length = k := by
  induction k with
  | zero => rfl
  | succ k ih => rw [bigEndian, List.length_cons, ih]

theorem two_pow_succ_byte : 2 ^ (8 * (k + 1)) = 2 ^ (8 * k) * 256 := by
  rw [Nat.mul_succ, Nat.pow_add]

theorem ofBytes_lt : ofBytes bs < 2 ^ (8 * bs.length) := by
  induction bs with
  | nil => decide
  | cons b bs ih =>
    have hb := b.toNat_lt
    calc ofBytes (b :: bs) < 2 ^ (8 * bs.length) * b.toNat + 2 ^ (8 * bs.length) := by
          rw [ofBytes]
          omega
      _ = 2 ^ (8 * bs.length) * (b.toNat + 1) := by ring
      _ ≤ 2 ^ (8 * bs.length) * 256 := Nat.mul_le_mul_left _ (by omega)
      _ = 2 ^ (8 * (b :: bs).length) := two_pow_succ_byte.symm

/-- The bytes of a number below 256 to the `k` are the number. -/
theorem ofBytes_bigEndian : ofBytes (bigEndian k n) = n % 2 ^ (8 * k) := by
  induction k with
  | zero => simp [bigEndian, ofBytes, Nat.mod_one]
  | succ k ih =>
    rw [bigEndian, ofBytes, ih, length_bigEndian, UInt8.toNat_ofNat', two_pow_succ_byte,
      Nat.mod_mul]
    exact Nat.add_comm _ _

/-- Higher bytes are left out. -/
theorem bigEndian_add : bigEndian k (2 ^ (8 * k) * m + n) = bigEndian k n := by
  induction k generalizing m with
  | zero => rfl
  | succ k ih =>
    have hsplit : 2 ^ (8 * (k + 1)) * m + n = 2 ^ (8 * k) * (256 * m) + n := by
      rw [two_pow_succ_byte, Nat.mul_assoc]
    have hpos : 0 < 2 ^ (8 * k) := Nat.two_pow_pos _
    rw [bigEndian, hsplit, ih, bigEndian, Nat.mul_add_div hpos]
    congr 1
    apply UInt8.toNat_inj.mp
    rw [UInt8.toNat_ofNat', UInt8.toNat_ofNat', Nat.mul_add_mod]

/-- Bytes are those of their number. -/
theorem bigEndian_ofBytes (h : bs.length = k) : bigEndian k (ofBytes bs) = bs := by
  induction bs generalizing k with
  | nil =>
    subst h
    rfl
  | cons b bs ih =>
    subst h
    have hpos : 0 < 2 ^ (8 * bs.length) := Nat.two_pow_pos _
    rw [List.length_cons, bigEndian, ofBytes, bigEndian_add, ih rfl, Nat.mul_add_div hpos,
      Nat.div_eq_of_lt ofBytes_lt, Nat.add_zero, UInt8.ofNat_toNat]

/-- Numbers of `k` bytes. -/
def ofWidth (k : ℕ) : Codec UInt8 (Fin (2 ^ (8 * k))) where
  size := k
  encode v := bigEndian k v
  decode bs := Fin.ofNat _ (ofBytes bs)
  length_encode _ := length_bigEndian
  decode_encode v := by
    apply Fin.ext
    rw [Fin.val_ofNat, ofBytes_bigEndian, Nat.mod_mod, Nat.mod_eq_of_lt v.isLt]
  encode_decode bs h := by
    rw [Fin.val_ofNat, Nat.mod_eq_of_lt (h ▸ ofBytes_lt), bigEndian_ofBytes h]

end BigEndian

section Cells

variable {β : Type*} [Inhabited β]

/-- Values that are a number of cells. -/
def cells (n : ℕ) : Codec β (Fin n → β) where
  size := n
  encode v := List.ofFn v
  decode bs i := bs.getD i default
  length_encode v := List.length_ofFn
  decode_encode v := by
    ext i
    simp
  encode_decode bs h := by
    apply List.ext_getElem
    · rw [List.length_ofFn, h]
    · intro i hi hi'
      simp [hi']

/-- The same values written from their end. -/
def Codec.reversed {α : Type*} (c : Codec β α) : Codec β α where
  size := c.size
  encode v := (c.encode v).reverse
  decode bs := c.decode bs.reverse
  length_encode v := by rw [List.length_reverse, c.length_encode]
  decode_encode v := by rw [List.reverse_reverse, c.decode_encode]
  encode_decode bs h := by
    rw [c.encode_decode _ (by rwa [List.length_reverse]), List.reverse_reverse]

end Cells

section Sequences

variable {β ι : Type*} {V : ι → Type*} (C : ∀ i, Codec β (V i))

/-- The number of cells for values of the listed types. -/
def sizes (is : List ι) : ℕ := (is.map fun i => (C i).size).sum

def encodeAll (vs : List (Sigma V)) : List β := vs.flatMap fun v => (C v.1).encode v.2

def decodeAll : List ι → List β → List (Sigma V)
  | [], _ => []
  | i :: is, bs => ⟨i, (C i).decode (bs.take (C i).size)⟩ :: decodeAll is (bs.drop (C i).size)

variable {C} {i : ι} {is : List ι} {vs : List (Sigma V)} {bs : List β}

@[simp] theorem sizes_nil : sizes C [] = 0 := rfl

@[simp] theorem sizes_cons : sizes C (i :: is) = (C i).size + sizes C is := List.sum_cons

theorem length_encodeAll : (encodeAll C vs).length = sizes C (vs.map Sigma.fst) := by
  induction vs with
  | nil => rfl
  | cons v vs ih =>
    rw [encodeAll, List.flatMap_cons, List.length_append, (C v.1).length_encode, List.map_cons,
      sizes_cons, ← ih]
    rfl

theorem fst_decodeAll : (decodeAll C is bs).map Sigma.fst = is := by
  induction is generalizing bs with
  | nil => rfl
  | cons i is ih => rw [decodeAll, List.map_cons, ih]

/-- Values are read back as they were written. -/
theorem decodeAll_encodeAll : decodeAll C (vs.map Sigma.fst) (encodeAll C vs) = vs := by
  induction vs with
  | nil => rfl
  | cons v vs ih =>
    have hlength := (C v.1).length_encode v.2
    rw [List.map_cons, decodeAll, encodeAll, List.flatMap_cons, List.take_left' hlength,
      List.drop_left' hlength, (C v.1).decode_encode]
    exact congrArg (v :: ·) ih

/-- Cells are written as they were read. -/
theorem encodeAll_decodeAll (h : bs.length = sizes C is) :
    encodeAll C (decodeAll C is bs) = bs := by
  induction is generalizing bs with
  | nil => exact (List.length_eq_zero_iff.mp h).symm
  | cons i is ih =>
    rw [sizes_cons] at h
    have hfirst : (bs.take (C i).size).length = (C i).size := by
      rw [List.length_take]
      omega
    have hrest : (bs.drop (C i).size).length = sizes C is := by
      rw [List.length_drop]
      omega
    rw [decodeAll, encodeAll, List.flatMap_cons, (C i).encode_decode _ hfirst]
    exact (congrArg _ (ih hrest)).trans (List.take_append_drop _ _)

end Sequences

end Codecs
