import Mathlib.Data.Nat.Digits.Defs
import FrameTransporter.Intrusive.Memory

/-! # Loads, stores and texts

Numbers in network order and C strings in a byte memory, and the texts that
`snprintf` writes.
-/

namespace FrameTransporter

open Intrusive

variable {mem : ℕ → UInt8} {cursor : ℕ}

/-- `ft_load_u16`. -/
def loadU16 (mem : ℕ → UInt8) (cursor : ℕ) : ℕ :=
  (mem (cursor + 1)).toNat ||| ((mem cursor).toNat <<< 8)

/-- `ft_load_u32`. -/
def loadU32 (mem : ℕ → UInt8) (cursor : ℕ) : ℕ :=
  (mem (cursor + 3)).toNat ||| ((mem (cursor + 2)).toNat <<< 8) |||
    ((mem (cursor + 1)).toNat <<< 16) ||| ((mem cursor).toNat <<< 24)

/-- The bytes that `ft_store_u16` stores. -/
def storeU16 (value : ℕ) : List UInt8 := [UInt8.ofNat (value >>> 8), UInt8.ofNat value]

/-- The bytes that `ft_store_u32` stores. -/
def storeU32 (value : ℕ) : List UInt8 :=
  [UInt8.ofNat (value >>> 24), UInt8.ofNat (value >>> 16), UInt8.ofNat (value >>> 8),
    UInt8.ofNat value]

/-- `ft_load_u8`. -/
def loadU8 (mem : ℕ → UInt8) (cursor : ℕ) : ℕ := (mem cursor).toNat

/-- `ft_load_u24`. -/
def loadU24 (mem : ℕ → UInt8) (cursor : ℕ) : ℕ :=
  (mem (cursor + 2)).toNat ||| ((mem (cursor + 1)).toNat <<< 8) ||| ((mem cursor).toNat <<< 16)

/-- `ft_load_u64`. -/
def loadU64 (mem : ℕ → UInt8) (cursor : ℕ) : ℕ :=
  (List.range 8).foldl (fun v i => (v <<< 8) % 2 ^ 64 ||| (mem (cursor + i)).toNat) 0

/-- `ft_load_f64`, with the bytes of the number by their address. -/
def loadF64 (mem : ℕ → UInt8) (cursor : ℕ) : Fin 8 → UInt8 := fun i => mem (cursor + (7 - i))

/-- `ft_load_bytes`. -/
def loadBytes (mem : ℕ → UInt8) (cursor n : ℕ) : Fin n → UInt8 := fun i => mem (cursor + i)

/-- The byte that `ft_store_u8` stores. -/
def storeU8 (value : ℕ) : List UInt8 := [UInt8.ofNat value]

/-- The bytes that `ft_store_u24` stores. -/
def storeU24 (value : ℕ) : List UInt8 :=
  [UInt8.ofNat (value >>> 16), UInt8.ofNat (value >>> 8), UInt8.ofNat value]

/-- The bytes that `ft_store_u64` stores. -/
def storeU64 (value : ℕ) : List UInt8 :=
  [UInt8.ofNat (value >>> 56), UInt8.ofNat (value >>> 48), UInt8.ofNat (value >>> 40),
    UInt8.ofNat (value >>> 32), UInt8.ofNat (value >>> 24), UInt8.ofNat (value >>> 16),
    UInt8.ofNat (value >>> 8), UInt8.ofNat value]

/-- The bytes that `ft_store_f64` stores. -/
def storeF64 (bval : Fin 8 → UInt8) : List UInt8 :=
  [bval 7, bval 6, bval 5, bval 4, bval 3, bval 2, bval 1, bval 0]

/-- The bytes that `ft_store_bytes` stores. -/
def storeBytes {n : ℕ} (src : Fin n → UInt8) : List UInt8 := List.ofFn src

/-- The bytes before the terminating zero, or all of them. -/
def cString (bytes : List UInt8) : List UInt8 := bytes.takeWhile (· ≠ 0)

/-- What `snprintf` leaves of a text in a buffer of the given size. -/
def snprintf (size : ℕ) (text : List UInt8) : List UInt8 := text.take (size - 1)

def digit (n : ℕ) : UInt8 := UInt8.ofNat (n.digitChar.toNat)

/-- The conversion `%u`. -/
def decimal (n : ℕ) : List UInt8 := (Nat.toDigits 10 n).map fun c => UInt8.ofNat c.toNat

/-- The conversion `%02x` of a byte. -/
def hexByte (b : UInt8) : List UInt8 := [digit (b.toNat / 16), digit (b.toNat % 16)]

/-- The format `"%u.%u.%u.%u"` on the four bytes of an address. -/
def dottedQuad (ip : ℕ) : List UInt8 :=
  decimal ((ip >>> 24) % 256) ++ 46 :: decimal ((ip >>> 16) % 256) ++ 46 ::
    decimal ((ip >>> 8) % 256) ++ 46 :: decimal (ip % 256)

/-- The format of eight groups `"%02x%02x"` with colons between them. -/
def hexGroups : List UInt8 → List UInt8
  | [] => []
  | [a] => hexByte a
  | [a, b] => hexByte a ++ hexByte b
  | a :: b :: rest => hexByte a ++ hexByte b ++ 58 :: hexGroups rest

theorem snprintf_eq_nil {size : ℕ} {text : List UInt8} (h : 1 < size) :
    snprintf size text = [] ↔ text = [] := by
  rw [snprintf, List.take_eq_nil_iff]
  exact or_iff_right (by omega)

theorem dottedQuad_ne_nil (ip : ℕ) : dottedQuad ip ≠ [] := by simp [dottedQuad]

theorem hexGroups_ne_nil {bytes : List UInt8} (h : bytes ≠ []) : hexGroups bytes ≠ [] := by
  match bytes with
  | [] => exact absurd rfl h
  | [_] | [_, _] | _ :: _ :: _ :: _ => simp [hexGroups, hexByte]

/-- A string that starts with its end. -/
theorem cString_slice_eq_nil {off n : ℕ} :
    cString (slice mem off n) = [] ↔ n = 0 ∨ mem off = 0 := by
  cases n with
  | zero => simp [cString, slice]
  | succ n =>
    have hs : slice mem off (n + 1) = mem off :: slice mem (off + 1) n := by
      rw [Nat.add_comm n 1, slice_add]
      rfl
    rw [hs, cString, List.takeWhile_cons]
    split <;> simp_all

theorem or_shiftLeft {a i : ℕ} (b : ℕ) (h : a < 2 ^ i) : a ||| b <<< i = a + 2 ^ i * b := by
  rw [Nat.or_comm, ← Nat.shiftLeft_add_eq_or_of_lt h, Nat.shiftLeft_eq]
  ring

theorem loadU16_eq : loadU16 mem cursor =
    2 ^ 8 * (mem cursor).toNat + (mem (cursor + 1)).toNat := by
  rw [loadU16, or_shiftLeft _ (UInt8.toNat_lt _), Nat.add_comm]

theorem loadU32_eq : loadU32 mem cursor = 2 ^ 24 * (mem cursor).toNat +
    2 ^ 16 * (mem (cursor + 1)).toNat + 2 ^ 8 * (mem (cursor + 2)).toNat +
      (mem (cursor + 3)).toNat := by
  have h₁ := (mem (cursor + 1)).toNat_lt
  have h₂ := (mem (cursor + 2)).toNat_lt
  have h₃ := (mem (cursor + 3)).toNat_lt
  have h₂₃ : (mem (cursor + 3)).toNat + 2 ^ 8 * (mem (cursor + 2)).toNat < 2 ^ 16 := by omega
  rw [loadU32, or_shiftLeft _ h₃, or_shiftLeft _ h₂₃, or_shiftLeft _ (by omega)]
  omega

end FrameTransporter
