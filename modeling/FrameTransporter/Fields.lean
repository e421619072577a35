import FrameTransporter.Codecs.Basic
import FrameTransporter.LoadStore

/-! # Fields on the wire

The stores and loads of one type write and read the same bytes, numbers with the
most significant byte first. So fields of any types that are stored one behind
the other are loaded as they were, and bytes that are loaded as fields of any
types are stored as they were.
-/

namespace FrameTransporter

open Intrusive Codecs

/-- The types of fields. -/
inductive Field
  | u8
  | u16
  | u24
  | u32
  | u64
  | f64
  | bytes (n : ℕ)
  deriving DecidableEq, Repr

namespace Field

/-- What a field of a type holds: a number of its width, or bytes by their address. -/
def Value : Field → Type
  | u8 => Fin (2 ^ 8)
  | u16 => Fin (2 ^ 16)
  | u24 => Fin (2 ^ 24)
  | u32 => Fin (2 ^ 32)
  | u64 => Fin (2 ^ 64)
  | f64 => Fin 8 → UInt8
  | bytes n => Fin n → UInt8

/-- What `ft_skip_u8` and its siblings skip. -/
def skip (cursor : ℕ) : Field → ℕ
  | u8 => cursor + 1
  | u16 => cursor + 2
  | u24 => cursor + 3
  | u32 => cursor + 4
  | u64 => cursor + 8
  | f64 => cursor + 8
  | bytes n => cursor + n

/-- The store function of a type, with the cursor that it returns. -/
def store (mem : ℕ → UInt8) (cursor : ℕ) : (f : Field) → f.Value → (ℕ → UInt8) × ℕ
  | u8, v => (splice mem cursor (storeU8 v.val), skip cursor u8)
  | u16, v => (splice mem cursor (storeU16 v.val), skip cursor u16)
  | u24, v => (splice mem cursor (storeU24 v.val), skip cursor u24)
  | u32, v => (splice mem cursor (storeU32 v.val), skip cursor u32)
  | u64, v => (splice mem cursor (storeU64 v.val), skip cursor u64)
  | f64, v => (splice mem cursor (storeF64 v), skip cursor f64)
  | bytes n, v => (splice mem cursor (storeBytes v), skip cursor (bytes n))

/-- The load function of a type, which cuts a number to the width of its target. -/
def load (mem : ℕ → UInt8) (cursor : ℕ) : (f : Field) → f.Value × ℕ
  | u8 => (Fin.ofNat (2 ^ 8) (loadU8 mem cursor), skip cursor u8)
  | u16 => (Fin.ofNat (2 ^ 16) (loadU16 mem cursor), skip cursor u16)
  | u24 => (Fin.ofNat (2 ^ 24) (loadU24 mem cursor), skip cursor u24)
  | u32 => (Fin.ofNat (2 ^ 32) (loadU32 mem cursor), skip cursor u32)
  | u64 => (Fin.ofNat (2 ^ 64) (loadU64 mem cursor), skip cursor u64)
  | f64 => (loadF64 mem cursor, skip cursor f64)
  | bytes n => (loadBytes mem cursor n, skip cursor (bytes n))

/-- Store fields one behind the other. -/
def storeAll : List (Sigma Value) → (ℕ → UInt8) → ℕ → (ℕ → UInt8) × ℕ
  | [], mem, cursor => (mem, cursor)
  | ⟨f, v⟩ :: vs, mem, cursor =>
    let (mem, cursor) := store mem cursor f v
    storeAll vs mem cursor

/-- Load fields of the listed types one behind the other. -/
def loadAll (mem : ℕ → UInt8) : List Field → ℕ → List (Sigma Value) × ℕ
  | [], cursor => ([], cursor)
  | f :: fs, cursor =>
    let (v, cursor) := load mem cursor f
    let (vs, cursor) := loadAll mem fs cursor
    (⟨f, v⟩ :: vs, cursor)

/-- The format of a type: numbers in network order, a floating point number from its last byte on,
bytes as they are. -/
def codec : (f : Field) → Codec UInt8 f.Value
  | u8 => ofWidth 1
  | u16 => ofWidth 2
  | u24 => ofWidth 3
  | u32 => ofWidth 4
  | u64 => ofWidth 8
  | f64 => (cells 8).reversed
  | bytes n => cells n

section Formats

variable {mem : ℕ → UInt8} {cursor : ℕ} {f : Field} {v : f.Value} {fs : List Field}
  {vs : List (Sigma Value)}

theorem skip_eq : skip cursor f = cursor + (codec f).size := by
  cases f <;> rfl

theorem storeU8_eq (n : ℕ) : storeU8 n = bigEndian 1 n := by simp [storeU8, bigEndian]

theorem storeU16_eq (n : ℕ) : storeU16 n = bigEndian 2 n := by
  simp [storeU16, bigEndian, Nat.shiftRight_eq_div_pow]

theorem storeU24_eq (n : ℕ) : storeU24 n = bigEndian 3 n := by
  simp [storeU24, bigEndian, Nat.shiftRight_eq_div_pow]

theorem storeU32_eq (n : ℕ) : storeU32 n = bigEndian 4 n := by
  simp [storeU32, bigEndian, Nat.shiftRight_eq_div_pow]

theorem storeU64_eq (n : ℕ) : storeU64 n = bigEndian 8 n := by
  simp [storeU64, bigEndian, Nat.shiftRight_eq_div_pow]

/-- A store writes the format of its type. -/
theorem store_eq : store mem cursor f v =
    (splice mem cursor ((codec f).encode v), cursor + (codec f).size) := by
  rw [← skip_eq]
  cases f with
  | u8 => rw [store, storeU8_eq]; rfl
  | u16 => rw [store, storeU16_eq]; rfl
  | u24 => rw [store, storeU24_eq]; rfl
  | u32 => rw [store, storeU32_eq]; rfl
  | u64 => rw [store, storeU64_eq]; rfl
  | f64 => rfl
  | bytes n => rfl

theorem slice_succ {n : ℕ} : slice mem cursor (n + 1) = mem cursor :: slice mem (cursor + 1) n := by
  rw [Nat.add_comm n 1, slice_add]
  rfl

theorem loadU8_ofBytes : loadU8 mem cursor = ofBytes (slice mem cursor 1) := by
  simp [loadU8, slice_succ, ofBytes]

theorem loadU16_ofBytes : loadU16 mem cursor = ofBytes (slice mem cursor 2) := by
  simp [loadU16_eq, slice_succ, ofBytes]

theorem loadU24_ofBytes : loadU24 mem cursor = ofBytes (slice mem cursor 3) := by
  have h₁ := (mem (cursor + 1)).toNat_lt
  have h₂ := (mem (cursor + 2)).toNat_lt
  rw [loadU24, or_shiftLeft _ h₂, or_shiftLeft _ (by omega)]
  simp only [slice_succ, slice_zero, ofBytes, List.length_cons, List.length_nil, Nat.add_assoc,
    Nat.reduceAdd]
  omega

theorem loadU32_ofBytes : loadU32 mem cursor = ofBytes (slice mem cursor 4) := by
  rw [loadU32_eq]
  simp only [slice_succ, slice_zero, ofBytes, List.length_cons, List.length_nil, Nat.add_assoc,
    Nat.reduceAdd]
  omega

theorem toNat_shift {b : UInt8} {k : ℕ} (h : k ≤ 24) :
    (b.toBitVec.setWidth 32 <<< k).toNat = b.toNat <<< k := by
  have hb := b.toNat_lt
  have hpow : 2 ^ k ≤ 2 ^ 24 := Nat.pow_le_pow_right (by decide) h
  have hmul : b.toNat * 2 ^ k ≤ 255 * 2 ^ 24 := Nat.mul_le_mul (by omega) hpow
  have hbits : (b.toBitVec.setWidth 32).toNat = b.toNat := by
    rw [BitVec.toNat_setWidth, UInt8.toNat_toBitVec]
    exact Nat.mod_eq_of_lt (by omega)
  rw [BitVec.toNat_shiftLeft, hbits]
  apply Nat.mod_eq_of_lt
  rw [Nat.shiftLeft_eq]
  omega

/-- The bytes are promoted to `int`, where the first one is shifted into the sign. The bits
are those of the number. -/
theorem loadU32_promoted : loadU32 mem cursor = ((mem (cursor + 3)).toBitVec.setWidth 32 |||
    (mem (cursor + 2)).toBitVec.setWidth 32 <<< 8 |||
    (mem (cursor + 1)).toBitVec.setWidth 32 <<< 16 |||
      (mem cursor).toBitVec.setWidth 32 <<< 24 : BitVec 32).toNat := by
  rw [BitVec.toNat_or, BitVec.toNat_or, BitVec.toNat_or, toNat_shift (by decide),
    toNat_shift (by decide), toNat_shift (by decide)]
  simp [loadU32]

/-- The loop of `ft_load_u64` shifts the bytes in, and none of them out. -/
theorem loadU64_loop {i j k n : ℕ} (hn : n < 2 ^ (8 * j)) (h : j + k ≤ 8) :
    (List.range' i k).foldl (fun v i => (v <<< 8) % 2 ^ 64 ||| (mem (cursor + i)).toNat) n =
      2 ^ (8 * k) * n + ofBytes (slice mem (cursor + i) k) := by
  induction k generalizing i j n with
  | zero => simp [ofBytes]
  | succ k ih =>
    have hb := (mem (cursor + i)).toNat_lt
    have hpow : 2 ^ (8 * (j + 1)) ≤ 2 ^ 64 := Nat.pow_le_pow_right (by omega) (by omega)
    rw [two_pow_succ_byte] at hpow
    have hshift : (n <<< 8) % 2 ^ 64 = n <<< 8 := by
      apply Nat.mod_eq_of_lt
      rw [Nat.shiftLeft_eq]
      omega
    have hnext : (n <<< 8) ||| (mem (cursor + i)).toNat = (mem (cursor + i)).toNat + 2 ^ 8 * n := by
      rw [Nat.or_comm, or_shiftLeft _ hb]
    have hlt : (mem (cursor + i)).toNat + 2 ^ 8 * n < 2 ^ (8 * (j + 1)) := by
      rw [two_pow_succ_byte]
      omega
    rw [List.range'_succ, List.foldl_cons, hshift, hnext, ih hlt (by omega), slice_succ, ofBytes,
      length_slice, two_pow_succ_byte, Nat.add_assoc cursor]
    ring

theorem loadU64_ofBytes : loadU64 mem cursor = ofBytes (slice mem cursor 8) := by
  rw [loadU64, List.range_eq_range', loadU64_loop (j := 0) (by decide) (by decide)]
  simp

theorem getD_slice {i n : ℕ} (h : i < n) :
    (slice mem cursor n).getD i default = mem (cursor + i) := by
  simp [slice, h]

/-- A load reads the format of its type. -/
theorem load_eq : load mem cursor f =
    ((codec f).decode (slice mem cursor (codec f).size), cursor + (codec f).size) := by
  rw [← skip_eq]
  cases f with
  | u8 => rw [load, loadU8_ofBytes]; rfl
  | u16 => rw [load, loadU16_ofBytes]; rfl
  | u24 => rw [load, loadU24_ofBytes]; rfl
  | u32 => rw [load, loadU32_ofBytes]; rfl
  | u64 => rw [load, loadU64_ofBytes]; rfl
  | f64 =>
    have hbytes : loadF64 mem cursor =
        fun i => (slice mem cursor 8).reverse.getD i.val default := by
      ext i
      have hi : 8 - 1 - i.val < 8 := by omega
      rw [List.getD_eq_getElem?_getD, List.getElem?_reverse (by simp), length_slice,
        ← List.getD_eq_getElem?_getD, getD_slice hi]
      rfl
    rw [load, hbytes]
    rfl
  | bytes n =>
    have hbytes : loadBytes mem cursor n = fun i => (slice mem cursor n).getD i.val default := by
      ext i
      rw [getD_slice i.isLt]
      rfl
    rw [load, hbytes]
    rfl

/-- Fields are stored as one range. -/
theorem storeAll_eq : storeAll vs mem cursor =
    (splice mem cursor (encodeAll codec vs), cursor + sizes codec (vs.map Sigma.fst)) := by
  induction vs generalizing mem cursor with
  | nil => simp [storeAll, encodeAll]
  | cons v vs ih =>
    have hlength := (codec v.1).length_encode v.2
    rw [storeAll, store_eq]
    dsimp only
    rw [ih, List.map_cons, sizes_cons, ← Nat.add_assoc, ← hlength, ← splice_append]
    rfl

/-- Fields are loaded from one range. -/
theorem loadAll_eq : loadAll mem fs cursor =
    (decodeAll codec fs (slice mem cursor (sizes codec fs)), cursor + sizes codec fs) := by
  induction fs generalizing cursor with
  | nil => rfl
  | cons f fs ih =>
    rw [loadAll, load_eq]
    dsimp only
    rw [ih, sizes_cons, decodeAll, slice_take (Nat.le_add_right _ _),
      slice_drop (Nat.le_add_right _ _), Nat.add_sub_cancel_left, Nat.add_assoc]

/-- What storing fields from a cursor on leaves behind: they are loaded as they were, up to the same
cursor, their formats are in the memory, and all other bytes are as before. -/
structure Stored (vs : List (Sigma Value)) (mem : ℕ → UInt8) (cursor : ℕ)
    (s : (ℕ → UInt8) × ℕ) : Prop where
  loaded : loadAll s.1 (vs.map Sigma.fst) cursor = (vs, s.2)
  written : slice s.1 cursor (s.2 - cursor) = encodeAll codec vs
  outside : ∀ i, i < cursor ∨ s.2 ≤ i → s.1 i = mem i

/-- Fields of any types are loaded as they were stored, and stored as they were loaded. -/
theorem storeAll_loadAll : (∀ vs mem cursor, Stored vs mem cursor (storeAll vs mem cursor)) ∧
    ∀ fs mem cursor mem' cursor', storeAll (loadAll mem fs cursor).1 mem' cursor' =
      (splice mem' cursor' (slice mem cursor (sizes codec fs)), cursor' + sizes codec fs) := by
  constructor
  · intro vs mem cursor
    have hlength : (encodeAll codec vs).length = sizes codec (vs.map Sigma.fst) := length_encodeAll
    rw [storeAll_eq, ← hlength]
    constructor
    · rw [loadAll_eq, ← hlength, slice_splice_self, decodeAll_encodeAll]
    · rw [Nat.add_sub_cancel_left, slice_splice_self]
    · rintro i (hi | hi)
      · exact splice_of_lt hi
      · exact splice_of_ge hi
  · intro fs mem cursor mem' cursor'
    rw [loadAll_eq, storeAll_eq, fst_decodeAll, encodeAll_decodeAll length_slice]

end Formats

end Field

end FrameTransporter
