import FrameTransporter.LoadStore
import FrameTransporter.Mempool.Frame

/-! # Log records

A log record has a level, structured data and a message in a buffer of fixed size.
Lengths are computed as an `int`, where a sum that overflows has no meaning, and
the texts that are printed may be longer than what their buffer takes.
-/

namespace FrameTransporter

/-- `struct ft_log_sd`: a name and a value, both C strings. -/
structure LogSd where
  name : List UInt8
  value : List UInt8
  deriving DecidableEq, Repr

/-- `struct ft_logrecord`. The message is the memory that is addressed from its buffer on. -/
structure LogRecord where
  timestamp : ℚ
  pid : ℕ
  level : UInt8
  appname : List UInt8
  sd : Option (List LogSd)
  message : ℤ → UInt8

namespace Log

/-- `sizeof(le.message)`. -/
def SIZEOF_MESSAGE : ℕ := 2048

/-- `INT_MAX`. -/
def INT_MAX : ℤ := 2 ^ 31 - 1

/-- The bytes of a text in the source. -/
def ascii (s : String) : List UInt8 := s.toList.map fun c => UInt8.ofNat c.toNat

/-- The conversion `%d`. -/
def signed (n : ℤ) : List UInt8 := if n < 0 then 45 :: decimal n.natAbs else decimal n.toNat

/-- What the functions of the `printf` family return for a text: its length, or a negative number
if that is no `int`. -/
def printed (text : List UInt8) : ℤ := if (text.length : ℤ) ≤ INT_MAX then text.length else -1

/-- A sum of two `int`s, which is undefined if it overflows. -/
def addInt (a b : ℤ) : Option ℤ :=
  if -INT_MAX - 1 ≤ a + b ∧ a + b ≤ INT_MAX then some (a + b) else none

/-- The memory after `vsnprintf` printed a text to an address, with a size. -/
def vsnprintf (mem : ℤ → UInt8) (at' : ℤ) (size : ℕ) (text : List UInt8) : ℤ → UInt8 := fun i =>
  if size = 0 ∨ i < at' then mem i
  else ((text.take (size - 1) ++ [0])[(i - at').toNat]?).getD (mem i)

/-- What a record is built from: the time, the process and the configured name. -/
structure Env where
  now : ℚ
  pid : ℕ
  appname : List UInt8

/-- `_ft_logrecord_build`. The text is null if there is no format, and the memory is what the
record held before. -/
def logrecordBuild (env : Env) (memory : ℤ → UInt8) (level : UInt8) (sd : Option (List LogSd))
    (text : Option (List UInt8)) : LogRecord × ℤ :=
  let le : LogRecord :=
    { timestamp := env.now, pid := env.pid, level, appname := env.appname, sd, message := memory }
  match text with
  | some text => ({ le with message := vsnprintf memory 0 SIZEOF_MESSAGE text }, printed text)
  | none => ({ le with message := vsnprintf memory 0 1 [] }, 0)

theorem neg_one_le_printed (text : List UInt8) : -1 ≤ printed text := by
  unfold printed
  split_ifs <;> omega

theorem printed_le (text : List UInt8) : printed text ≤ INT_MAX := by
  unfold printed INT_MAX
  split_ifs <;> omega

theorem addInt_eq_some {a b c : ℤ} :
    addInt a b = some c ↔ c = a + b ∧ -INT_MAX - 1 ≤ c ∧ c ≤ INT_MAX := by
  unfold addInt
  split_ifs with h
  · constructor
    · intro hc
      obtain rfl := Option.some.inj hc
      exact ⟨rfl, h⟩
    · rintro ⟨rfl, -⟩
      rfl
  · constructor
    · rintro ⟨⟩
    · rintro ⟨rfl, hc⟩
      exact absurd hc h

end Log

end FrameTransporter
