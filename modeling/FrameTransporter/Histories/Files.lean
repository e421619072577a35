import Mathlib.Data.Finset.Option
import FrameTransporter.Histories.Handles

/-! # Buffered files

Files are opened for appending through handles, each with a buffer that goes to its
file when it is flushed, when the handle is closed, and in part at any other time. A
file keeps what was written to it when another file takes its name.
-/

namespace Handles

variable {P : Type}

/-- The files by number, the names of some, and the handles by number. -/
structure Files (P : Type) where
  names : P → Option ℕ
  contents : ℕ → List UInt8
  created : ℕ
  opened : Finset ℕ
  file : ℕ → ℕ
  buffer : ℕ → List UInt8
  calls : List (Call ℕ)

namespace Files

/-- The handle `h` is opened for appending to a name, which gets a new file if it has none. -/
def fopen [DecidableEq P] (h : ℕ) (p : P) (w : Files P) : Files P :=
  { w with
    names := Function.update w.names p (some ((w.names p).getD w.created))
    created := if w.names p = none then w.created + 1 else w.created
    opened := insert h w.opened
    file := Function.update w.file h ((w.names p).getD w.created)
    buffer := Function.update w.buffer h []
    calls := w.calls ++ [.acquire h] }

/-- A text is put into the buffer of a handle. -/
def fputs (h : ℕ) (text : List UInt8) (w : Files P) : Files P :=
  { w with
    buffer := Function.update w.buffer h (w.buffer h ++ text)
    calls := w.calls ++ [.use h] }

/-- The first `n` bytes of a buffer go to its file. -/
def spill (h n : ℕ) (w : Files P) : Files P :=
  { w with
    contents := Function.update w.contents (w.file h) (w.contents (w.file h) ++ (w.buffer h).take n)
    buffer := Function.update w.buffer h ((w.buffer h).drop n) }

/-- The whole buffer goes to its file. -/
def fflush (h : ℕ) (w : Files P) : Files P :=
  { w.spill h (w.buffer h).length with calls := w.calls ++ [.use h] }

/-- The buffer goes to its file, and the handle is closed. -/
def fclose (h : ℕ) (w : Files P) : Files P :=
  { w.spill h (w.buffer h).length with
    opened := w.opened.erase h
    calls := w.calls ++ [.release h] }

/-- What a handle has not written to the file number `i` yet. -/
def pendingOf (h : Option ℕ) (i : ℕ) (w : Files P) : List UInt8 :=
  match h with
  | none => []
  | some h => if w.file h = i then w.buffer h else []

/-- Apart from at most one handle the buffers are written, and each file number `i` has or will have
the bytes `all i`. -/
structure Holds (h : Option ℕ) (all : ℕ → List UInt8) (w : Files P) : Prop where
  correct : held w.calls = some w.opened
  opened : w.opened = h.toFinset
  total : ∀ i, w.contents i ++ w.pendingOf h i = all i

section Rules

variable {h h' : Option ℕ} {n k : ℕ} {all : ℕ → List UInt8} {w : Files P} {p : P}
  {text : List UInt8} {i : ℕ}

theorem pendingOf_self : w.pendingOf (some k) (w.file k) = w.buffer k := if_pos rfl

theorem pendingOf_ne (hi : w.file k ≠ i) : w.pendingOf (some k) i = [] := if_neg hi

theorem Holds.total_self (hw : Holds (some k) all w) :
    w.contents (w.file k) ++ w.buffer k = all (w.file k) := by
  rw [← pendingOf_self (w := w)]
  exact hw.total _

theorem Holds.total_ne (hw : Holds (some k) all w) (hi : w.file k ≠ i) :
    w.contents i = all i := by
  rw [← hw.total i, pendingOf_ne hi, List.append_nil]

theorem Holds.mem (hw : Holds (some k) all w) : k ∈ w.opened := by
  rw [hw.opened]
  simp

/-- Names are given and taken at will. -/
theorem Holds.rename (hw : Holds h all w) (names : P → Option ℕ) :
    Holds h all { w with names } := { hw with }

theorem total_spill (hw : Holds (some k) all w) (i : ℕ) :
    (w.spill k n).contents i ++ (w.spill k n).pendingOf (some k) i = all i := by
  by_cases hi : w.file k = i
  · subst hi
    rw [← hw.total_self]
    simp [spill, pendingOf]
  · rw [← hw.total_ne hi]
    simp [spill, pendingOf, hi, Ne.symm hi]

theorem Holds.spill (hw : Holds (some k) all w) : Holds (some k) all (w.spill k n) where
  correct := hw.correct
  opened := hw.opened
  total := total_spill hw

theorem Holds.fflush (hw : Holds (some k) all w) : Holds (some k) all (w.fflush k) where
  correct := held_use hw.correct hw.mem
  opened := hw.opened
  total := total_spill hw

theorem buffer_fputs : (w.fputs k text).buffer k = w.buffer k ++ text := by simp [Files.fputs]

theorem buffer_spill : (w.spill k n).buffer k <:+ w.buffer k := by
  simpa [Files.spill] using List.drop_suffix n (w.buffer k)

theorem buffer_fflush : (w.fflush k).buffer k = [] := by simp [Files.fflush, Files.spill]

/-- What is printed is appended to the file of the handle. -/
theorem Holds.fputs (hw : Holds (some k) all w) : Holds (some k)
    (Function.update all (w.file k) (all (w.file k) ++ text)) (w.fputs k text) where
  correct := held_use hw.correct hw.mem
  opened := hw.opened
  total i := by
    by_cases hi : w.file k = i
    · subst hi
      rw [Function.update_self, ← hw.total_self]
      simp [Files.fputs, pendingOf]
    · rw [Function.update_of_ne (Ne.symm hi), ← hw.total_ne hi]
      simp [Files.fputs, pendingOf, hi]

/-- A closed handle leaves nothing behind. -/
theorem Holds.fclose (hw : Holds (some k) all w) : Holds none all (w.fclose k) where
  correct := held_release hw.correct hw.mem
  opened := by
    change w.opened.erase k = _
    rw [hw.opened]
    simp
  total i := by
    have htotal := total_spill (n := (w.buffer k).length) hw i
    have hpending : (w.spill k (w.buffer k).length).pendingOf (some k) i = [] := by
      simp [Files.spill, pendingOf]
    rw [hpending] at htotal
    exact htotal

theorem Holds.fopen [DecidableEq P] (hw : Holds none all w) : Holds (some k) all (w.fopen k p) where
  correct := held_acquire hw.correct (by simp [hw.opened])
  opened := by simp [Files.fopen, hw.opened]
  total i := by simpa [Files.fopen, pendingOf] using hw.total i

/-- A new handle may be opened before the old one is closed. -/
theorem Holds.swap [DecidableEq P] (hw : Holds (some k) all w) (hn : n ∉ w.opened) :
    Holds (some n) all ((w.fopen n p).fclose k) where
  correct := by
    refine held_release (held_acquire hw.correct hn) (Finset.mem_insert_of_mem hw.mem)
  opened := by
    have hne : k ≠ n := fun he => hn (he ▸ hw.mem)
    change (insert n w.opened).erase k = _
    rw [hw.opened]
    ext x
    simp only [Option.toFinset_some, Finset.mem_erase, Finset.mem_insert, Finset.mem_singleton]
    grind
  total i := by
    have hne : k ≠ n := fun he => hn (he ▸ hw.mem)
    by_cases hi : w.file k = i
    · subst hi
      rw [← hw.total_self]
      simp [Files.fopen, Files.fclose, Files.spill, pendingOf, hne, Ne.symm hne]
    · rw [← hw.total_ne hi]
      simp [Files.fopen, Files.fclose, Files.spill, pendingOf, hne, Ne.symm hne, Ne.symm hi]

theorem buffer_fopen [DecidableEq P] : (w.fopen k p).buffer k = [] := by simp [Files.fopen]

theorem buffer_fclose (hb : w.buffer n = []) : (w.fclose k).buffer n = [] := by
  by_cases hn : n = k
  · subst hn
    simp [Files.fclose, Files.spill]
  · simp [Files.fclose, Files.spill, hn, hb]

end Rules

end Files

end Handles
