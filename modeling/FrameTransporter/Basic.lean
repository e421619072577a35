import Mathlib.Data.Nat.Notation

/-! # Frames and faults by name

A frame is named by the zone that holds it and by its index there, which stands
for its address. Code that fails an assertion aborts the process. Assertions are
never compiled out, so a failed one is a result of its own.
-/

namespace FrameTransporter

/-- The address of a frame: the zone it belongs to and its index in that zone. -/
structure FrameId where
  zone : ℕ
  index : ℕ
  deriving DecidableEq, Repr

/-- The assertions of the modelled functions, by the condition they state. -/
inductive Assertion
  | vecInFrame | vecNotNull | vecPositionBelowLimit
  | advanceWithinLimit | advanceWithinCapacity
  | positionWithinLimit | positionWithinCapacity
  | fileNotNull | linePositive | typeNotFree | lastSeenByFile | lastSeenByLine
  | poolFramesUsed | zoneFramesReturned
  | errorExclusive | connecting | notConnecting | phase | writeReady | frameDvec | sizeToRead
  | sizeToWrite | writeQueueLength | writeClosed | readFrameNull | readPauseLevel
  | sslStatus | sslNotNull | sslShutdownStatus | sslErrno | sslZeroReturn
  | selMethod | delegateRead | messageLength | recordNotEmpty
  | syslogFrameNull | vecLimitPositive | vecCapacityPositive
  | topicNotNull | subscriberNextNull | subscriberPubsubNull | countPositive
  | regcomp | colonNotNull | addrNotNull | portNotNull
  | dataPageAligned | frameCountPositive | zoneBelowData | dataInZone | framesPageAligned
  | allocPageAligned | frameInZone
  deriving DecidableEq, Repr

/-- Why a run stops early: the code fails an assertion, or it comes to what has no meaning, as where
a caller breaks its contract. -/
inductive Fault
  | abort (a : Assertion)
  | misuse
  deriving DecidableEq, Repr

section Results

variable {α β : Type}

theorem ok_bind (a : α) (k : α → Except Fault β) : (Except.ok a >>= k) = k a := rfl

/-- Both parts of a sequence that returns return. -/
theorem bind_ok {m : Except Fault α} {k : α → Except Fault β} {b : β} (h : m >>= k = .ok b) :
    ∃ a, m = .ok a ∧ k a = .ok b := by
  cases m with
  | error e => cases h
  | ok a => exact ⟨a, rfl, h⟩

end Results

end FrameTransporter
