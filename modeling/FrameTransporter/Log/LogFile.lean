import Mathlib.Data.Finset.Lattice.Fold
import Mathlib.Data.NNRat.Defs
import Mathlib.Order.Lattice.Nat
import FrameTransporter.Histories.Files
import FrameTransporter.Log.Record

/-! # The log and its file

Records go to the backend of the log, or to the emergency stream if there is none or
if the backend logs while it processes a record. The file backend prints to a file
that is opened again when log files are rotated. No record is lost, doubled or moved
before another one, and the file is flushed before too much or too old text waits.
-/

namespace FrameTransporter

open Handles

/-- The backends that the log distinguishes: the one for files, and others that print a record
before they log. One that logs before that, like the one for syslog when the pool is exhausted, may
find another text in the static record of `_ft_log_v`. -/
inductive LogBackend
  | file
  | other
  deriving DecidableEq

/-- The part of `struct ft_config` for the file backend. -/
structure LogFile where
  filename : Option (List UInt8)
  file : Option ℕ
  flushCounter : ℕ
  flushCounterMax : ℕ
  flushLast : ℚ
  flushInterval : ℚ
  datetimeStyle : Char

/-- Where a record is printed. -/
inductive LogSink
  | stderr
  | file (i : ℕ)
  | other
  deriving DecidableEq

/-- A record with the length of its message, and when and where it was printed as a text. -/
structure LogPrint where
  sink : LogSink
  record : LogRecord × ℕ
  text : List UInt8
  time : ℚ

/-- The log: the time, whether there is a context, the backend, and the files. The records that
were logged and what was printed are not in memory. -/
structure Logger where
  now : ℚ
  clock : ℕ
  context : Bool
  backend : Option LogBackend
  reentry : Bool
  logFile : LogFile
  files : Files (List UInt8)
  stderr : List UInt8
  logged : List (LogRecord × ℕ)
  prints : List LogPrint

namespace Logger

/-- What the system answers: the record that is built for a message of the log itself, the texts
that are printed for a record, what another backend logs when it has printed a record, and whether
there is memory and a file can be opened, with the handle. -/
structure Env where
  record : UInt8 → List UInt8 → ℕ → LogRecord × ℕ
  emergencyText : LogRecord × ℕ → ℕ → List UInt8
  text : Char → LogRecord × ℕ → ℕ → List UInt8
  nested : LogRecord × ℕ → ℕ → List (LogRecord × ℕ)
  strdup : ℕ → Bool
  fopen : ℕ → Bool
  handle : Finset ℕ → ℕ
  handle_notMem : ∀ s, handle s ∉ s

variable (env : Env)

def tick (w : Logger) : Logger := { w with clock := w.clock + 1 }

/-- The record is passed to `ft_logrecord_process`. -/
def enter (r : LogRecord × ℕ) (w : Logger) : Logger := { w with logged := w.logged ++ [r] }

def printTo (sink : LogSink) (r : LogRecord × ℕ) (text : List UInt8) (w : Logger) : Logger :=
  { w with prints := w.prints ++ [⟨sink, r, text, w.now⟩] }

/-- `fprintf` to `stderr`. -/
def printStderr (r : LogRecord × ℕ) (text : List UInt8) (w : Logger) : Logger :=
  { w with stderr := w.stderr ++ text }.printTo .stderr r text

/-- `ft_logrecord_emergency_fprint`. -/
def emergencyFprint (r : LogRecord × ℕ) (w : Logger) : Logger :=
  (w.printStderr r (env.emergencyText r w.clock)).tick

/-- `fprintf` to the log file, if there is one, else to `stderr`. -/
def fprint (r : LogRecord × ℕ) (text : List UInt8) (w : Logger) : Logger :=
  match w.logFile.file with
  | none => w.printStderr r text
  | some h =>
    { w with files := w.files.fputs h text }.printTo (.file (w.files.file h)) r text

def setLogFile (w : Logger) (logFile : LogFile) : Logger := { w with logFile }

/-- `ft_log_file_backend_logrecord_process`. Like `ft_logrecord_process` it asserts that the length
is not negative. -/
def fileProcess (r : LogRecord × ℕ) (w : Logger) : Logger :=
  let w := (w.fprint r (env.text w.logFile.datetimeStyle r w.clock)).tick
  w.setLogFile { w.logFile with flushCounter := (w.logFile.flushCounter + 1) % 2 ^ 32 }

/-- `ft_logrecord_process` while the backend processes a record. -/
def reenter (r : LogRecord × ℕ) (w : Logger) : Logger := (w.enter r).emergencyFprint env r

/-- `process` of another backend, and what it logs when it has printed the record. -/
def otherProcess (r : LogRecord × ℕ) (w : Logger) : Logger :=
  (env.nested r w.clock).foldl (fun w r => w.reenter env r) (w.printTo .other r []).tick

/-- `ft_logrecord_process`. The records are those of a length that is not negative, so that the
assertions hold. -/
def logrecordProcess (r : LogRecord × ℕ) (w : Logger) : Logger :=
  match w.backend with
  | none => (w.enter r).emergencyFprint env r
  | some b =>
    if w.reentry = true then w.reenter env r
    else
      let w := { w.enter r with reentry := true }
      let w := match b with
        | .file => w.fileProcess env r
        | .other => w.otherProcess env r
      { w with reentry := false }

/-- `FT_INFO`, `FT_WARN` or `FT_ERROR_ERRNO` in the file backend. -/
def log (level : Char) (text : String) (w : Logger) : Logger :=
  w.tick.logrecordProcess env
    (env.record (UInt8.ofNat level.toNat) (Log.ascii text) w.clock)

/-- `fclose` of the log file. -/
def closeFile (w : Logger) : Logger :=
  match w.logFile.file with
  | none => w
  | some h => { w with files := w.files.fclose h }.setLogFile { w.logFile with file := none }

/-- `ft_log_file_backend_fini`. -/
def fileFini (w : Logger) : Logger :=
  let w := w.closeFile
  w.setLogFile { w.logFile with filename := none }

/-- The part of `ft_log_file_reopen` behind `fopen`, which gave the handle `n`. -/
def swapFile (n : ℕ) (p : List UInt8) (w : Logger) : Logger :=
  match w.logFile.file with
  | none =>
    { w with files := w.files.fopen n p }.setLogFile { w.logFile with file := some n }
  | some h =>
    ({ w with files := (w.files.fopen n p).fclose h }.setLogFile
      { w.logFile with file := some n }).log env 'I' "Log file is reopen"

/-- `ft_log_file_reopen`. -/
def fileReopen (w : Logger) : Bool × Logger :=
  match w.logFile.filename with
  | none =>
    if w.logFile.file = none then (true, w)
    else (false, w.log env 'W' "Log file name is not specified")
  | some p =>
    if env.fopen w.clock = false then (false, w.tick.log env 'E' "Error when opening log file '%s'")
    else (true, w.tick.swapFile env (env.handle w.files.opened) p)

/-- `ft_log_file_backend_init`. -/
def fileInit (fname : Option (List UInt8)) (w : Logger) : Bool × Logger :=
  let w := w.fileFini
  let filename := if env.strdup w.clock = true then fname else none
  (w.tick.setLogFile { w.logFile with filename }).fileReopen env

/-- `fflush` of the log file, or of `stderr`, which has no buffer. -/
def fflush (w : Logger) : Logger :=
  match w.logFile.file with
  | none => w
  | some h => { w with files := w.files.fflush h }

/-- `ft_log_file_flush`. -/
def fileFlush (now : ℚ) (w : Logger) : Logger :=
  if w.logFile.flushCounter ≥ w.logFile.flushCounterMax ∨
      w.logFile.flushLast + w.logFile.flushInterval < now then
    w.fflush.setLogFile { w.logFile with flushCounter := 0, flushLast := now }
  else w

/-- The time that `ft_log_flush` makes up, `1e77`. -/
def farFuture : ℚ := 10 ^ 77

/-- `ft_log_flush`. -/
def flush (force : Bool) (w : Logger) : Logger :=
  if w.backend = some .file then
    w.fileFlush (if force = true ∨ w.context = false then farFuture else w.now)
  else w

/-- `ft_context_on_prepare`. -/
def onPrepare (w : Logger) : Logger := if w.backend = some .file then w.fileFlush w.now else w

/-- `_ft_context_on_sighup`. -/
def onSighup (w : Logger) : Logger :=
  if w.backend = some .file then (w.fileReopen env).2 else w

def setBackend (backend : Option LogBackend) (context : Bool) (w : Logger) : Logger :=
  { w with backend, context }

/-- `ft_log_backend_switch`. -/
def backendSwitch (backend : Option LogBackend) (w : Logger) : Logger :=
  if w.backend = backend then w
  else if w.backend = some .file then (w.setBackend (some (backend.getD .file)) w.context).fileFini
  else w.setBackend (some (backend.getD .file)) w.context

/-- `ft_log_finalise`. -/
def finalise (w : Logger) : Logger :=
  if w.backend = some .file then (w.setBackend none false).fileFini else w.setBackend none false

/-- What happens to the log. A rotation of log files gives their names to other files. -/
inductive Event
  | log (r : LogRecord × ℕ)
  | reopen
  | init (fname : Option (List UInt8))
  | flush (force : Bool)
  | prepare
  | sighup
  | switch (backend : Option LogBackend)
  | finalise
  | advance (d : ℚ≥0)
  | rotate (names : List UInt8 → Option ℕ)
  | spill (n : ℕ)

/-- The log after an event. Time does not go back. -/
def Event.exec : Event → Logger → Logger
  | .log r, w => w.logrecordProcess env r
  | .reopen, w => (w.fileReopen env).2
  | .init fname, w => (w.fileInit env fname).2
  | .flush force, w => w.flush force
  | .prepare, w => w.onPrepare
  | .sighup, w => w.onSighup env
  | .switch backend, w => w.backendSwitch backend
  | .finalise, w => w.finalise
  | .advance d, w => { w with now := w.now + d }
  | .rotate names, w => { w with files := { w.files with names } }
  | .spill n, w =>
    match w.logFile.file with
    | none => w
    | some h => { w with files := w.files.spill h n }

def run (events : List Event) (w : Logger) : Logger := events.foldl (fun w e => e.exec env w) w

/-- The log of a program that starts, with a configuration of the file backend, and the files that
there are. -/
def init (backend : Option LogBackend) (context : Bool) (now : ℚ≥0) (flushCounterMax : ℕ)
    (flushInterval : ℚ) (datetimeStyle : Char) (names : List UInt8 → Option ℕ)
    (contents : ℕ → List UInt8) (created : ℕ) : Logger where
  now := now
  clock := 0
  context := context
  backend := backend
  reentry := false
  logFile := ⟨none, none, 0, flushCounterMax, 0, flushInterval, datetimeStyle⟩
  files := ⟨names, contents, created, ∅, fun _ => 0, fun _ => [], []⟩
  stderr := []
  logged := []
  prints := []

/-- How the record `r` is printed if it is logged now. -/
def printOf (r : LogRecord × ℕ) (w : Logger) : LogPrint :=
  match w.backend with
  | none => ⟨.stderr, r, env.emergencyText r w.clock, w.now⟩
  | some .other => ⟨.other, r, [], w.now⟩
  | some .file =>
    ⟨(w.logFile.file.map w.files.file).elim .stderr .file, r,
      env.text w.logFile.datetimeStyle r w.clock, w.now⟩

section Kept

variable {env} {base : ℕ → List UInt8} {old : List LogPrint} {busy : Bool}
  {pend : List (LogRecord × ℕ)} {w : Logger} {r : LogRecord × ℕ} {text : List UInt8}

/-- What was printed to a sink. -/
def printsTo (sink : LogSink) (prints : List LogPrint) : List LogPrint :=
  prints.filter fun p => p.sink = sink

/-- The texts that were printed to a sink. -/
def textOf (sink : LogSink) (prints : List LogPrint) : List UInt8 :=
  (printsTo sink prints).flatMap (·.text)

theorem printsTo_concat (sink : LogSink) (ps : List LogPrint) (p : LogPrint) :
    printsTo sink (ps ++ [p]) = printsTo sink ps ++ if p.sink = sink then [p] else [] := by
  unfold printsTo
  rw [List.filter_append]
  congr 1
  by_cases h : p.sink = sink <;> simp [h]

theorem textOf_concat (sink : LogSink) (ps : List LogPrint) (p : LogPrint) :
    textOf sink (ps ++ [p]) = textOf sink ps ++ if p.sink = sink then p.text else [] := by
  unfold textOf
  rw [printsTo_concat, List.flatMap_append]
  congr 1
  split_ifs <;> simp

/-- What the file number `i` has when all is flushed. -/
def total (base : ℕ → List UInt8) (prints : List LogPrint) (i : ℕ) : List UInt8 :=
  base i ++ textOf (.file i) prints

/-- The records `pend` were passed to the log and are not printed yet, and what was printed in the
past, `old`, stays printed. -/
structure Keeps (base : ℕ → List UInt8) (old : List LogPrint) (busy : Bool)
    (pend : List (LogRecord × ℕ)) (w : Logger) : Prop where
  reentry : w.reentry = busy
  past : old <+: w.prints
  files : w.files.Holds w.logFile.file (total base w.prints)
  stderr : w.stderr = textOf .stderr w.prints
  each : w.prints.map (·.record) ++ pend = w.logged

theorem Keeps.tick (h : Keeps base old busy pend w) : Keeps base old busy pend w.tick := { h with }

theorem Keeps.enter (h : Keeps base old busy [] w) : Keeps base old busy [r] (w.enter r) where
  __ := h
  each := by
    change _ = w.logged ++ [r]
    rw [← h.each, List.append_nil]
    rfl

theorem map_record_concat (h : w.prints.map (·.record) ++ r :: pend = w.logged) (p : LogPrint)
    (hp : p.record = r) : (w.prints ++ [p]).map (·.record) ++ pend = w.logged := by
  rw [List.map_append, ← h, List.append_assoc, List.map_singleton, hp, List.singleton_append]

theorem total_concat {p : LogPrint} (hp : ∀ i, p.sink ≠ .file i) (ps : List LogPrint) :
    total base (ps ++ [p]) = total base ps := by
  funext i
  rw [total, textOf_concat, if_neg (hp i), List.append_nil, total]

theorem Keeps.printOther (h : Keeps base old busy (r :: pend) w) :
    Keeps base old busy pend (w.printTo .other r text) where
  reentry := h.reentry
  past := h.past.trans (List.prefix_append _ _)
  files := by
    change w.files.Holds w.logFile.file (total base (w.prints ++ [_]))
    rw [total_concat (by simp)]
    exact h.files
  stderr := by
    change w.stderr = textOf .stderr (w.prints ++ [_])
    rw [textOf_concat, if_neg (by simp), List.append_nil, h.stderr]
  each := map_record_concat h.each _ rfl

theorem Keeps.printStderr (h : Keeps base old busy (r :: pend) w) :
    Keeps base old busy pend (w.printStderr r text) where
  reentry := h.reentry
  past := h.past.trans (List.prefix_append _ _)
  files := by
    change w.files.Holds w.logFile.file (total base (w.prints ++ [_]))
    rw [total_concat (by simp)]
    exact h.files
  stderr := by
    change w.stderr ++ text = textOf .stderr (w.prints ++ [_])
    rw [textOf_concat, if_pos rfl, h.stderr]
  each := map_record_concat h.each _ rfl

theorem Keeps.emergencyFprint (h : Keeps base old busy (r :: pend) w) :
    Keeps base old busy pend (w.emergencyFprint env r) := h.printStderr.tick

theorem Keeps.fprint (h : Keeps base old busy (r :: pend) w) :
    Keeps base old busy pend (w.fprint r text) := by
  unfold Logger.fprint
  split
  · exact h.printStderr
  · next k hk =>
    have hf := h.files
    rw [hk] at hf
    refine ⟨h.reentry, h.past.trans (List.prefix_append _ _), ?_, ?_,
      map_record_concat h.each _ rfl⟩
    · change (w.files.fputs k text).Holds w.logFile.file (total base (w.prints ++ [_]))
      have htotal : total base (w.prints ++ [⟨.file (w.files.file k), r, text, w.now⟩]) =
          Function.update (total base w.prints) (w.files.file k)
            (total base w.prints (w.files.file k) ++ text) := by
        funext i
        rw [total, textOf_concat]
        by_cases hi : i = w.files.file k
        · subst hi
          rw [Function.update_self, if_pos rfl, total, List.append_assoc]
        · rw [Function.update_of_ne hi, if_neg (by simpa using Ne.symm hi), List.append_nil, total]
      rw [htotal, hk]
      exact hf.fputs
    · change w.stderr = textOf .stderr (w.prints ++ [_])
      rw [textOf_concat, if_neg (by simp), List.append_nil, h.stderr]

theorem Keeps.setLogFile {logFile : LogFile} (h : Keeps base old busy pend w)
    (hf : logFile.file = w.logFile.file) : Keeps base old busy pend (w.setLogFile logFile) where
  __ := h
  files := by
    change w.files.Holds logFile.file (total base w.prints)
    rw [hf]
    exact h.files

theorem Keeps.setBackend {backend : Option LogBackend} {context : Bool}
    (h : Keeps base old busy pend w) : Keeps base old busy pend (w.setBackend backend context) :=
  { h with }

theorem Keeps.fileProcess (h : Keeps base old busy (r :: pend) w) :
    Keeps base old busy pend (w.fileProcess env r) := h.fprint.tick.setLogFile rfl

theorem Keeps.reenter (h : Keeps base old busy [] w) : Keeps base old busy [] (w.reenter env r) :=
  h.enter.emergencyFprint

theorem Keeps.otherProcess (h : Keeps base old busy [r] w) :
    Keeps base old busy [] (w.otherProcess env r) := by
  unfold Logger.otherProcess
  have h₁ : Keeps base old busy [] (w.printTo .other r []).tick := h.printOther.tick
  generalize (w.printTo .other r []).tick = w₁ at h₁
  induction env.nested r w.clock generalizing w₁ with
  | nil => exact h₁
  | cons r rs ih => exact ih _ h₁.reenter

theorem prints_otherProcess :
    w.prints ++ [⟨.other, r, [], w.now⟩] <+: (w.otherProcess env r).prints := by
  unfold Logger.otherProcess
  have hp : w.prints ++ [⟨.other, r, [], w.now⟩] <+: (w.printTo .other r []).tick.prints :=
    List.prefix_rfl
  generalize (w.printTo .other r []).tick = w₁ at hp
  induction env.nested r w.clock generalizing w₁ with
  | nil => exact hp
  | cons r rs ih => exact ih _ (hp.trans (List.prefix_append _ _))

theorem Keeps.logrecordProcess (h : Keeps base old busy [] w) :
    Keeps base old busy [] (w.logrecordProcess env r) := by
  have henter : Keeps base old true [r] { w.enter r with reentry := true } :=
    { h.enter with reentry := rfl }
  unfold Logger.logrecordProcess
  split
  · exact h.enter.emergencyFprint
  · split_ifs with hb
    · exact h.reenter
    · have hbusy : false = busy := by
        rw [← h.reentry]
        simpa using hb
      dsimp only
      split
      · exact { henter.fileProcess with reentry := hbusy }
      · exact { henter.otherProcess with reentry := hbusy }

theorem Keeps.log {level : Char} {message : String} (h : Keeps base old busy [] w) :
    Keeps base old busy [] (w.log env level message) := h.tick.logrecordProcess

theorem Keeps.closeFile (h : Keeps base old busy pend w) :
    Keeps base old busy pend w.closeFile := by
  unfold Logger.closeFile
  split
  · exact h
  · next k hk =>
    have hf := h.files
    rw [hk] at hf
    exact { h with files := hf.fclose }

theorem Keeps.fileFini (h : Keeps base old busy pend w) : Keeps base old busy pend w.fileFini :=
  h.closeFile.setLogFile rfl

theorem file_fileFini (w : Logger) : w.fileFini.logFile.file = none := by
  unfold Logger.fileFini Logger.closeFile
  cases hf : w.logFile.file with
  | none => exact hf
  | some k => rfl

theorem Keeps.swapFile {n : ℕ} {p : List UInt8} (h : Keeps base old busy [] w)
    (hn : n ∉ w.files.opened) : Keeps base old busy [] (w.swapFile env n p) := by
  have hf := h.files
  unfold Logger.swapFile
  split
  · next hk =>
    rw [hk] at hf
    exact { h with files := hf.fopen }
  · next k hk =>
    rw [hk] at hf
    exact Keeps.log { h with files := hf.swap hn }

theorem Keeps.fileReopen (h : Keeps base old busy [] w) :
    Keeps base old busy [] (w.fileReopen env).2 := by
  unfold Logger.fileReopen
  split
  · split_ifs
    · exact h
    · exact h.log
  · split_ifs
    · exact h.tick.log
    · exact h.tick.swapFile (env.handle_notMem _)

theorem Keeps.fileInit {fname : Option (List UInt8)} (h : Keeps base old busy [] w) :
    Keeps base old busy [] (w.fileInit env fname).2 := by
  unfold Logger.fileInit
  refine Keeps.fileReopen ?_
  exact h.fileFini.tick.setLogFile rfl

theorem logFile_fflush (w : Logger) : w.fflush.logFile = w.logFile := by
  unfold Logger.fflush
  split <;> rfl

theorem Keeps.fflush (h : Keeps base old busy pend w) : Keeps base old busy pend w.fflush := by
  unfold Logger.fflush
  split
  · exact h
  · next k hk =>
    have hf := h.files
    rw [hk] at hf
    exact { h with files := by rw [hk]; exact hf.fflush }

theorem Keeps.fileFlush {now : ℚ} (h : Keeps base old busy pend w) :
    Keeps base old busy pend (w.fileFlush now) := by
  unfold Logger.fileFlush
  split_ifs
  · refine h.fflush.setLogFile ?_
    rw [logFile_fflush]
  · exact h

theorem Keeps.exec (e : Event) (h : Keeps base old busy [] w) :
    Keeps base old busy [] (e.exec env w) := by
  cases e with
  | log r => exact h.logrecordProcess
  | reopen => exact h.fileReopen
  | init fname => exact h.fileInit
  | flush force =>
    rw [Event.exec, Logger.flush]
    by_cases hb : w.backend = some .file
    · rw [if_pos hb]
      exact h.fileFlush
    · rw [if_neg hb]
      exact h
  | prepare =>
    rw [Event.exec, onPrepare]
    split_ifs
    · exact h.fileFlush
    · exact h
  | sighup =>
    rw [Event.exec, onSighup]
    split_ifs
    · exact h.fileReopen
    · exact h
  | switch backend =>
    rw [Event.exec, backendSwitch]
    split_ifs
    · exact h
    · exact h.setBackend.fileFini
    · exact h.setBackend
  | finalise =>
    rw [Event.exec, Logger.finalise]
    split_ifs
    · exact h.setBackend.fileFini
    · exact h.setBackend
  | advance d => exact { h with }
  | rotate names => exact { h with files := h.files.rename names }
  | spill n =>
    rw [Event.exec]
    split
    · exact h
    · next k hk =>
      have hf := h.files
      rw [hk] at hf
      exact { h with files := by rw [hk]; exact hf.spill }

theorem record_printOf : (w.printOf env r).record = r := by
  unfold Logger.printOf
  split <;> rfl

/-- The record is printed first, and then those that its backend logged. -/
theorem prints_logrecordProcess (hb : w.reentry = false) :
    w.prints ++ [w.printOf env r] <+: (w.logrecordProcess env r).prints := by
  unfold Logger.logrecordProcess Logger.printOf
  rw [hb]
  rcases w.backend with - | b
  · exact List.prefix_rfl
  · cases b with
    | file =>
      cases hf : w.logFile.file <;>
        simp [Logger.fileProcess, Logger.fprint, Logger.enter, hf, Logger.tick, Logger.setLogFile,
          Logger.printStderr, printTo]
    | other => exact prints_otherProcess (w := { w.enter r with reentry := true })

theorem keeps_init (backend : Option LogBackend) (context : Bool) (now : ℚ≥0)
    (flushCounterMax : ℕ) (flushInterval : ℚ) (datetimeStyle : Char)
    (names : List UInt8 → Option ℕ) (created : ℕ) :
    Keeps base [] false [] (init backend context now flushCounterMax flushInterval datetimeStyle
      names base created) where
  reentry := rfl
  past := List.nil_prefix
  files := ⟨rfl, rfl, fun i => by simp [init, total, textOf, printsTo, Files.pendingOf]⟩
  stderr := rfl
  each := rfl

/-- What is logged by the events themselves. -/
def Event.record : Event → Option (LogRecord × ℕ)
  | .log r => some r
  | _ => none

theorem Keeps.logged_eq (h : Keeps base old busy [] w) : w.prints.map (·.record) = w.logged := by
  rw [← h.each, List.append_nil]

/-- What is logged stays logged, and an event adds its own record first. -/
theorem Keeps.logged_exec (e : Event) (h : Keeps base old false [] w) :
    w.logged ++ e.record.toList <+: (e.exec env w).logged := by
  have he : Keeps base w.prints false [] (e.exec env w) :=
    Keeps.exec e { h with past := List.prefix_rfl }
  have hp : (w.prints ++ (e.record.map fun r => w.printOf env r).toList) <+:
      (e.exec env w).prints := by
    cases e with
    | log r => exact prints_logrecordProcess h.reentry
    | _ => simpa [Event.record] using he.past
  rw [← he.logged_eq, ← h.logged_eq]
  have hmap := hp.map (·.record)
  rw [List.map_append] at hmap
  convert hmap using 2
  cases e.record with
  | none => rfl
  | some r => simp [record_printOf]

theorem Keeps.run (events : List Event) (h : Keeps base old false [] w) :
    Keeps base old false [] (run env events w) ∧
      (w.logged ++ events.filterMap Event.record).Sublist (Logger.run env events w).logged := by
  induction events generalizing w with
  | nil => exact ⟨h, by simp [Logger.run]⟩
  | cons e events ih =>
    have he : Keeps base w.prints false [] (e.exec env w) :=
      Keeps.exec e { h with past := List.prefix_rfl }
    obtain ⟨hrun, hsub⟩ := ih { he with past := h.past.trans he.past }
    refine ⟨hrun, List.Sublist.trans ?_ hsub⟩
    have hrecords : (e :: events).filterMap Event.record =
        e.record.toList ++ events.filterMap Event.record := by
      cases hr : e.record <;> simp [hr]
    rw [hrecords, ← List.append_assoc]
    exact (h.logged_exec e).sublist.append (List.Sublist.refl _)

/-- What the log has done for `records`, which were logged in this order. -/
structure Delivered (base : ℕ → List UInt8) (records : List (LogRecord × ℕ)) (w : Logger) :
    Prop where
  handles : held w.files.calls = some w.files.opened
  opened : w.files.opened = w.logFile.file.toFinset
  files : ∀ i, w.files.contents i ++ w.files.pendingOf w.logFile.file i =
    base i ++ textOf (.file i) w.prints
  stderr : w.stderr = textOf .stderr w.prints
  each : w.prints.map (·.record) = w.logged
  records : records.Sublist w.logged

theorem Keeps.delivered {records : List (LogRecord × ℕ)} (h : Keeps base old busy [] w)
    (hr : records.Sublist w.logged) : Delivered base records w :=
  ⟨h.files.correct, h.files.opened, h.files.total, h.stderr, h.logged_eq, hr⟩

theorem Keeps.finalise (h : Keeps base old busy [] w) (hb : w.backend = some .file) :
    w.finalise.files.opened = ∅ ∧
      ∀ i, w.finalise.files.contents i = base i ++ textOf (.file i) w.finalise.prints := by
  have hk : Keeps base old busy [] (w.setBackend none false).fileFini := h.setBackend.fileFini
  have hn := file_fileFini (w.setBackend none false)
  have hfin : w.finalise = (w.setBackend none false).fileFini := if_pos hb
  rw [hfin]
  refine ⟨by rw [hk.files.opened, hn]; rfl, fun i => ?_⟩
  have htotal := hk.files.total i
  rw [hn] at htotal
  rw [← List.append_nil (Files.contents _ i)]
  exact htotal

/-- In every run, each record is printed once and where it has to be, in the order in which they
were logged, and its text reaches its file through one handle at a time. If the log is in a file at
the end, the file is complete. -/
theorem run_delivered (backend : Option LogBackend) (context : Bool) (now : ℚ≥0)
    (flushCounterMax : ℕ) (flushInterval : ℚ) (datetimeStyle : Char)
    (names : List UInt8 → Option ℕ) (contents : ℕ → List UInt8) (created : ℕ)
    (events : List Event) :
    let w := run env events (init backend context now flushCounterMax flushInterval datetimeStyle
      names contents created)
    Delivered contents (events.filterMap Event.record) w ∧
      (∀ r, w.prints ++ [w.printOf env r] <+: (Event.exec env (.log r) w).prints) ∧
      (w.backend = some .file → (Event.exec env .finalise w).files.opened = ∅ ∧
        ∀ i, (Event.exec env .finalise w).files.contents i =
          contents i ++ textOf (.file i) (Event.exec env .finalise w).prints) := by
  obtain ⟨h, hsub⟩ := (keeps_init backend context now flushCounterMax flushInterval
    datetimeStyle names created).run events
  exact ⟨h.delivered hsub, fun r => prints_logrecordProcess h.reentry, h.finalise⟩

end Kept

section Flushed

variable {env} {recent : List LogPrint} {k : ℕ} {w : Logger} {r : LogRecord × ℕ}
  {text : List UInt8}

/-- What waits in the buffer of the handle `k` are texts of the prints `recent`, the last ones to
its file, which are not older than the last flush unless that was a forced one. -/
structure Waiting (recent : List LogPrint) (k : ℕ) (w : Logger) : Prop where
  prints : recent <:+ printsTo (.file (w.files.file k)) w.prints
  buffer : w.files.buffer k <:+ recent.flatMap (·.text)
  counter : recent.length ≤ w.logFile.flushCounter
  time : w.logFile.flushLast < farFuture → ∀ p ∈ recent, w.logFile.flushLast ≤ p.time

/-- The counter and the time of the last flush, as long as the counter has not overflowed. -/
structure Timed (w : Logger) : Prop where
  counter : w.logFile.flushCounter ≤ w.prints.length
  last : w.logFile.flushLast < farFuture → w.logFile.flushLast ≤ w.now
  waiting : w.prints.length < 2 ^ 32 → ∀ k, w.logFile.file = some k →
    ∃ recent, Waiting recent k w

theorem waiting_nil (hb : w.files.buffer k = []) : Waiting [] k w where
  prints := List.nil_suffix
  buffer := by rw [hb]; exact List.nil_suffix
  counter := Nat.zero_le _
  time _ p hp := by cases hp

/-- The files, the prints and the time are all that counts. -/
theorem Timed.congr {w' : Logger} (h : Timed w) (hl : w'.logFile = w.logFile)
    (hf : w'.files = w.files) (hp : w'.prints = w.prints) (hn : w.now ≤ w'.now) : Timed w' where
  counter := by rw [hl, hp]; exact h.counter
  last := by
    rw [hl]
    exact fun hlast => (h.last hlast).trans hn
  waiting := by
    rw [hl, hp]
    intro hlength k hk
    obtain ⟨recent, hw⟩ := h.waiting hlength k hk
    refine ⟨recent, ?_, ?_, ?_, ?_⟩
    · rw [hf, hp]
      exact hw.prints
    · rw [hf]
      exact hw.buffer
    · rw [hl]
      exact hw.counter
    · rw [hl]
      exact hw.time

theorem Timed.tick (h : Timed w) : Timed w.tick := h.congr rfl rfl rfl le_rfl

theorem Timed.enter (h : Timed w) : Timed (w.enter r) := h.congr rfl rfl rfl le_rfl

theorem Timed.setBackend {backend : Option LogBackend} {context : Bool} (h : Timed w) :
    Timed (w.setBackend backend context) := h.congr rfl rfl rfl le_rfl

/-- A print that does not go to a file leaves the files alone. -/
theorem Timed.printTo {sink : LogSink} (hs : ∀ i, sink ≠ .file i) (h : Timed w) :
    Timed (w.printTo sink r text) where
  counter := h.counter.trans (by simp [Logger.printTo])
  last := h.last
  waiting hn k hk := by
    have hn' : w.prints.length < 2 ^ 32 := by
      simp only [Logger.printTo, List.length_append, List.length_singleton] at hn
      omega
    obtain ⟨recent, hw⟩ := h.waiting hn' k hk
    refine ⟨recent, { hw with prints := ?_ }⟩
    simp only [Logger.printTo, printsTo_concat, if_neg (hs _), List.append_nil]
    exact hw.prints

theorem Timed.printStderr (h : Timed w) : Timed (w.printStderr r text) := by
  have hstderr : Timed { w with stderr := w.stderr ++ text } := h.congr rfl rfl rfl le_rfl
  exact hstderr.printTo (by simp)

theorem Timed.emergencyFprint (h : Timed w) : Timed (w.emergencyFprint env r) := h.printStderr.tick

theorem Timed.reenter (h : Timed w) : Timed (w.reenter env r) := h.enter.emergencyFprint

theorem Timed.otherProcess (h : Timed w) : Timed (w.otherProcess env r) := by
  unfold Logger.otherProcess
  have h₁ : Timed (w.printTo .other r []).tick := (h.printTo (by simp)).tick
  generalize (w.printTo .other r []).tick = w₁ at h₁
  induction env.nested r w.clock generalizing w₁ with
  | nil => exact h₁
  | cons r rs ih => exact ih _ h₁.reenter

theorem mod_le_length {c n : ℕ} (h : c ≤ n) : (c + 1) % 2 ^ 32 ≤ n + 1 :=
  (Nat.mod_le _ _).trans (by omega)

/-- The text waits behind those that waited before it. -/
theorem Timed.fileProcess (h : Timed w) : Timed (w.fileProcess env r) := by
  cases hf : w.logFile.file with
  | none =>
    refine ⟨?_, ?_, ?_⟩ <;>
      simp only [Logger.fileProcess, Logger.fprint, hf, Logger.printStderr, Logger.printTo,
        Logger.tick, Logger.setLogFile, List.length_append, List.length_singleton]
    · exact mod_le_length h.counter
    · exact h.last
    · intro _ k hk
      cases hk
  | some k =>
    refine ⟨?_, ?_, ?_⟩ <;>
      simp only [Logger.fileProcess, Logger.fprint, hf, Logger.printTo,
        Logger.tick, Logger.setLogFile, List.length_append, List.length_singleton]
    · exact mod_le_length h.counter
    · exact h.last
    · intro hn k' hk'
      obtain rfl : k = k' := Option.some.inj hk'
      obtain ⟨recent, hw⟩ := h.waiting (by omega) k hf
      let p : LogPrint := ⟨.file (w.files.file k), r, env.text w.logFile.datetimeStyle r w.clock,
        w.now⟩
      refine ⟨recent ++ [p], ?_, ?_, ?_, ?_⟩
      · have hp : printsTo (.file (w.files.file k)) (w.prints ++ [p]) =
            printsTo (.file (w.files.file k)) w.prints ++ [p] := by
          rw [printsTo_concat, if_pos rfl]
        change _ <:+ printsTo (.file (w.files.file k)) (w.prints ++ [p])
        rw [hp]
        exact List.suffix_append_self_iff.mpr hw.prints
      · rw [List.flatMap_append, List.flatMap_singleton]
        change (w.files.fputs k p.text).buffer k <:+ recent.flatMap (·.text) ++ p.text
        rw [Files.buffer_fputs]
        exact List.suffix_append_self_iff.mpr hw.buffer
      · rw [List.length_append, List.length_singleton]
        have hlength := hw.counter
        have hcounter := h.counter
        simp only
        omega
      · intro hlast x hx
        rcases List.mem_append.mp hx with hx | hx
        · exact hw.time hlast x hx
        · rw [List.mem_singleton.mp hx]
          exact h.last hlast

theorem Timed.logrecordProcess (h : Timed w) : Timed (w.logrecordProcess env r) := by
  have hsame {w : Logger} {busy : Bool} (h : Timed w) : Timed { w with reentry := busy } :=
    h.congr rfl rfl rfl le_rfl
  unfold Logger.logrecordProcess
  split
  · exact h.enter.emergencyFprint
  · split_ifs
    · exact h.reenter
    · dsimp only
      split
      · exact hsame (hsame h.enter).fileProcess
      · exact hsame (hsame h.enter).otherProcess

theorem Timed.log {level : Char} {message : String} (h : Timed w) :
    Timed (w.log env level message) := h.tick.logrecordProcess

/-- Without text in the buffer of the handle nothing waits. -/
theorem Timed.setFile {logFile : LogFile} (h : Timed w) (files : Files (List UInt8))
    (hc : logFile.flushCounter ≤ w.logFile.flushCounter)
    (hl : logFile.flushLast < farFuture → logFile.flushLast ≤ w.now)
    (hb : ∀ k, logFile.file = some k → files.buffer k = []) :
    Timed ({ w with files }.setLogFile logFile) where
  counter := hc.trans h.counter
  last := hl
  waiting _ k hk := ⟨[], waiting_nil (hb k hk)⟩

theorem Timed.fileFini (h : Timed w) : Timed w.fileFini := by
  unfold Logger.fileFini Logger.closeFile
  cases hf : w.logFile.file with
  | none => exact h.setFile w.files le_rfl h.last (by simp [hf])
  | some k => exact h.setFile _ le_rfl h.last (by simp [Logger.setLogFile])

theorem Timed.swapFile {n : ℕ} {p : List UInt8} (h : Timed w) : Timed (w.swapFile env n p) := by
  unfold Logger.swapFile
  split
  · refine h.setFile _ le_rfl h.last ?_
    intro k hk
    obtain rfl : n = k := Option.some.inj hk
    exact Files.buffer_fopen
  · refine Timed.log (h.setFile _ le_rfl h.last ?_)
    intro k hk
    obtain rfl : n = k := Option.some.inj hk
    exact Files.buffer_fclose Files.buffer_fopen

theorem Timed.fileReopen (h : Timed w) : Timed (w.fileReopen env).2 := by
  unfold Logger.fileReopen
  split
  · split_ifs
    · exact h
    · exact h.log
  · split_ifs
    · exact h.tick.log
    · exact h.tick.swapFile

theorem Timed.fileInit {fname : Option (List UInt8)} (h : Timed w) :
    Timed (w.fileInit env fname).2 := by
  unfold Logger.fileInit
  refine Timed.fileReopen ?_
  refine h.fileFini.tick.setFile w.fileFini.files le_rfl h.fileFini.last ?_
  intro k hk
  have hn : w.fileFini.logFile.file = some k := hk
  rw [file_fileFini] at hn
  cases hn

theorem Timed.fileFlush {now : ℚ} (h : Timed w) (hnow : now < farFuture → now ≤ w.now) :
    Timed (w.fileFlush now) := by
  unfold Logger.fileFlush Logger.fflush
  split_ifs
  · cases hf : w.logFile.file with
    | none => exact h.setFile _ (Nat.zero_le _) hnow (by simp [hf])
    | some k =>
      refine h.setFile _ (Nat.zero_le _) hnow ?_
      intro k' hk'
      obtain rfl : k = k' := Option.some.inj (hf.symm.trans hk')
      exact Files.buffer_fflush
  · exact h

theorem Timed.exec (e : Event) (h : Timed w) : Timed (e.exec env w) := by
  cases e with
  | log r => exact h.logrecordProcess
  | reopen => exact h.fileReopen
  | init fname => exact h.fileInit
  | flush force =>
    rw [Event.exec, Logger.flush]
    by_cases hb : w.backend = some .file
    · rw [if_pos hb]
      refine h.fileFlush ?_
      split_ifs
      · intro hlt
        exact absurd hlt (lt_irrefl _)
      · exact fun _ => le_rfl
    · rw [if_neg hb]
      exact h
  | prepare =>
    rw [Event.exec, onPrepare]
    split_ifs
    · exact h.fileFlush fun _ => le_rfl
    · exact h
  | sighup =>
    rw [Event.exec, onSighup]
    split_ifs
    · exact h.fileReopen
    · exact h
  | switch backend =>
    rw [Event.exec, backendSwitch]
    split_ifs
    · exact h
    · exact h.setBackend.fileFini
    · exact h.setBackend
  | finalise =>
    rw [Event.exec, Logger.finalise]
    split_ifs
    · exact h.setBackend.fileFini
    · exact h.setBackend
  | advance d => exact h.congr rfl rfl rfl (le_add_of_nonneg_right d.2)
  | rotate names =>
    exact ⟨h.counter, h.last, fun hn k hk => (h.waiting hn k hk).imp fun _ hw => { hw with }⟩
  | spill n =>
    rw [Event.exec]
    split
    · exact h
    · next k hk =>
      refine ⟨h.counter, h.last, fun hn k' hk' => ?_⟩
      obtain rfl : k = k' := Option.some.inj (hk.symm.trans hk')
      obtain ⟨recent, hw⟩ := h.waiting hn k hk
      refine ⟨recent, { hw with buffer := ?_ }⟩
      exact Files.buffer_spill.trans hw.buffer

theorem Timed.run (events : List Event) (h : Timed w) : Timed (Logger.run env events w) := by
  induction events generalizing w with
  | nil => exact h
  | cons e events ih => exact ih (h.exec e)

theorem timed_init (backend : Option LogBackend) (context : Bool) (now : ℚ≥0)
    (flushCounterMax : ℕ) (flushInterval : ℚ) (datetimeStyle : Char)
    (names : List UInt8 → Option ℕ) (contents : ℕ → List UInt8) (created : ℕ) :
    Timed (init backend context now flushCounterMax flushInterval datetimeStyle names contents
      created) where
  counter := Nat.zero_le _
  last _ := now.2
  waiting _ k hk := by cases hk

theorem fileFlush_params (now : ℚ) (w : Logger) :
    (w.fileFlush now).logFile.file = w.logFile.file ∧
      (w.fileFlush now).logFile.flushCounterMax = w.logFile.flushCounterMax ∧
      (w.fileFlush now).logFile.flushInterval = w.logFile.flushInterval ∧
      (w.fileFlush now).now = w.now ∧ (w.fileFlush now).prints = w.prints := by
  unfold Logger.fileFlush Logger.fflush
  split_ifs
  · cases hf : w.logFile.file <;> exact ⟨hf, rfl, rfl, rfl, rfl⟩
  · exact ⟨rfl, rfl, rfl, rfl, rfl⟩

/-- A flush at the time of the log leaves little and young text behind, if any. -/
theorem Timed.flushed (h : Timed w) (hn : w.prints.length < 2 ^ 32) (hk : w.logFile.file = some k) :
    ∃ recent, Waiting recent k (w.fileFlush w.now) ∧
      (recent = [] ∨ recent.length < w.logFile.flushCounterMax) ∧
      ((w.fileFlush w.now).logFile.flushLast < farFuture →
        ∀ p ∈ recent, w.now ≤ p.time + w.logFile.flushInterval) := by
  unfold Logger.fileFlush Logger.fflush
  split_ifs with hdo
  · refine ⟨[], waiting_nil ?_, .inl rfl, fun _ p hp => by cases hp⟩
    rw [hk]
    exact Files.buffer_fflush
  · push Not at hdo
    obtain ⟨recent, hw⟩ := h.waiting hn k hk
    refine ⟨recent, hw, .inr (hw.counter.trans_lt hdo.1), fun hlast p hp => hdo.2.trans ?_⟩
    exact add_le_add_left (hw.time hlast p hp) _

/-- In every run, whenever the event loop is about to wait, what has not been written yet are the
last texts for the log file, fewer than the limit. None of them is older than the interval unless
the last flush was a forced one. -/
theorem run_prepare (backend : Option LogBackend) (context : Bool) (now : ℚ≥0)
    (flushCounterMax : ℕ) (flushInterval : ℚ) (datetimeStyle : Char)
    (names : List UInt8 → Option ℕ) (contents : ℕ → List UInt8) (created : ℕ)
    (events : List Event) (k : ℕ) :
    let w := Event.exec env .prepare (run env events (init backend context now flushCounterMax
      flushInterval datetimeStyle names contents created))
    w.backend = some .file → w.logFile.file = some k → w.prints.length < 2 ^ 32 →
    ∃ recent, recent <:+ printsTo (.file (w.files.file k)) w.prints ∧
      w.files.buffer k <:+ recent.flatMap (·.text) ∧
      (recent = [] ∨ recent.length < w.logFile.flushCounterMax) ∧
      (w.logFile.flushLast < farFuture →
        ∀ p ∈ recent, w.now ≤ p.time + w.logFile.flushInterval) := by
  have h : Timed (run env events (init backend context now flushCounterMax flushInterval
      datetimeStyle names contents created)) :=
    (timed_init backend context now flushCounterMax flushInterval datetimeStyle names contents
      created).run events
  generalize run env events _ = w₀ at h
  intro w hb hk hn
  have hb₀ : w₀.backend = some .file := by
    by_contra hne
    have hw : w = w₀ := if_neg hne
    exact hne (hw ▸ hb)
  have hw : w = w₀.fileFlush w₀.now := if_pos hb₀
  obtain ⟨hfile, hmax, hinterval, hnow, hprints⟩ := fileFlush_params w₀.now w₀
  rw [hw] at hk hn ⊢
  rw [hprints] at hn
  obtain ⟨recent, hr, hcount, htime⟩ := h.flushed hn (hfile.symm.trans hk)
  rw [hmax, hinterval, hnow]
  exact ⟨recent, hr.prints, hr.buffer, hcount, htime⟩

/-- A record with the message `hi`. -/
def hiRecord : LogRecord × ℕ :=
  (⟨0, 7, 73, Log.ascii "app", none, fun i => if i = 0 then 104 else if i = 1 then 105 else 0⟩, 2)

/-- A system with memory and files with one record to log. -/
def sampleEnv : Env where
  record _ _ _ := hiRecord
  emergencyText _ _ := Log.ascii "1970-01-01T00:00:00.000Z app[    7]!  INFO: hi\n"
  text _ _ _ := Log.ascii "1970-01-01T00:00:00.000Z app[    7]  INFO: hi\n"
  nested _ _ := []
  strdup _ := true
  fopen _ := true
  handle s := s.sup id + 1
  handle_notMem s hs := by
    have hle : s.sup id + 1 ≤ s.sup id := Finset.le_sup (f := id) hs
    omega

theorem run_prepare_hi :
    let w := Event.exec sampleEnv .prepare (run sampleEnv [.init (some [97]), .log hiRecord]
      (init (some .file) true 0 100 5 'I' (fun _ => none) (fun _ => []) 0))
    ∃ recent, recent <:+ printsTo (.file (w.files.file 1)) w.prints ∧
      w.files.buffer 1 <:+ recent.flatMap (·.text) ∧
      (recent = [] ∨ recent.length < w.logFile.flushCounterMax) ∧
      (w.logFile.flushLast < farFuture →
        ∀ p ∈ recent, w.now ≤ p.time + w.logFile.flushInterval) :=
  run_prepare (some .file) true 0 100 5 'I' (fun _ => none) (fun _ => []) 0
    [.init (some [97]), .log hiRecord] 1 (by decide +kernel) (by decide +kernel) (by decide +kernel)

/-- Events of a log that stays as it is configured. -/
def Event.Quiet : Event → Prop
  | .log _ | .flush _ | .prepare | .advance _ | .spill _ => True
  | _ => False

/-- Events at which the log may flush its file. -/
def Event.Flushing : Event → Prop
  | .flush _ | .prepare => True
  | _ => False

/-- The time that an event takes. -/
def Event.elapsed : Event → ℚ≥0
  | .advance d => d
  | _ => 0

/-- What the log is like after a forced flush, when `n` records and the time `d` follow. -/
structure Forced (k n : ℕ) (d : ℚ≥0) (w : Logger) : Prop where
  backend : w.backend = some .file
  reentry : w.reentry = false
  file : w.logFile.file = some k
  last : w.logFile.flushLast = farFuture
  interval : 0 ≤ w.logFile.flushInterval
  counter : w.logFile.flushCounter + n < w.logFile.flushCounterMax
  max : w.logFile.flushCounterMax < 2 ^ 32
  now : w.now + d ≤ farFuture

variable {n : ℕ} {d : ℚ≥0}

theorem Forced.fileFlush {now : ℚ} (h : Forced k n d w) (hnow : now ≤ farFuture) :
    w.fileFlush now = w := by
  have hcounter := h.counter
  refine if_neg ?_
  push Not
  refine ⟨by omega, ?_⟩
  rw [h.last]
  exact hnow.trans (le_add_of_nonneg_right h.interval)

/-- Neither the counter nor the time makes the log flush. -/
theorem Forced.exec_flushing {e : Event} (he : e.Flushing) (h : Forced k n d w) :
    e.exec env w = w := by
  have hn : w.now ≤ farFuture := (le_add_of_nonneg_right d.2).trans h.now
  cases e with
  | flush force =>
    rw [Event.exec, Logger.flush, if_pos h.backend]
    refine h.fileFlush ?_
    split_ifs
    · exact le_rfl
    · exact hn
  | prepare =>
    rw [Event.exec, onPrepare, if_pos h.backend]
    exact h.fileFlush hn
  | _ => cases he

theorem Forced.log (h : Forced k (n + 1) d w) : Forced k n d (w.logrecordProcess env r) := by
  have hw : w.logrecordProcess env r =
      { ({ w.enter r with reentry := true }).fileProcess env r with reentry := false } := by
    rw [Logger.logrecordProcess, h.backend, h.reentry]
    rfl
  have hcounter := h.counter
  have hmax := h.max
  rw [hw]
  refine ⟨?_, rfl, ?_, ?_, ?_, ?_, ?_, ?_⟩ <;>
    simp only [Logger.fileProcess, Logger.fprint, Logger.enter, h.file, Logger.printTo,
      Logger.tick, Logger.setLogFile]
  · exact h.backend
  · exact h.last
  · exact h.interval
  · rw [Nat.mod_eq_of_lt] <;> omega
  · exact hmax
  · exact h.now

theorem Forced.exec {e : Event} (hq : e.Quiet)
    (h : Forced k (e.record.toList.length + n) (e.elapsed + d) w) :
    Forced k n d (e.exec env w) := by
  have hnow : w.now + d ≤ farFuture :=
    (add_le_add_right (le_add_of_nonneg_left e.elapsed.2) w.now).trans (by exact_mod_cast h.now)
  have hcounter := h.counter
  cases e with
  | log r =>
    refine Forced.log { h with counter := ?_, now := hnow }
    change w.logFile.flushCounter + (1 + n) < _ at hcounter
    omega
  | flush force =>
    rw [h.exec_flushing (e := .flush force) trivial]
    exact { h with counter := by simpa [Event.record] using hcounter, now := hnow }
  | prepare =>
    rw [h.exec_flushing (e := .prepare) trivial]
    exact { h with counter := by simpa [Event.record] using hcounter, now := hnow }
  | advance d' =>
    refine { h with counter := ?_, now := ?_ }
    · change w.logFile.flushCounter + (0 + n) < _ at hcounter
      rwa [Nat.zero_add] at hcounter
    · change w.now + d' + d ≤ farFuture
      rw [add_assoc]
      exact_mod_cast h.now
  | spill m =>
    have hw : Event.exec env (.spill m) w = { w with files := w.files.spill k m } := by
      rw [Event.exec, h.file]
    rw [hw]
    exact { h with counter := by simpa [Event.record] using hcounter, now := hnow }
  | reopen | init | sighup | switch | finalise | rotate => cases hq

theorem Forced.run {events : List Event} (hq : ∀ e ∈ events, e.Quiet)
    (h : Forced k ((events.filterMap Event.record).length + n)
      ((events.map Event.elapsed).sum + d) w) :
    Forced k n d (Logger.run env events w) := by
  induction events generalizing w with
  | nil => simpa [Logger.run] using h
  | cons e events ih =>
    have hlength : ((e :: events).filterMap Event.record).length =
        e.record.toList.length + (events.filterMap Event.record).length := by
      cases hr : e.record <;> simp [hr, Nat.add_comm]
    rw [hlength, List.map_cons, List.sum_cons, add_assoc, add_assoc] at h
    exact ih (fun x hx => hq x (List.mem_cons_of_mem _ hx))
      (h.exec (hq e (List.mem_cons_self ..)))

/-- A forced flush writes all texts. It sets the time of the last flush to the far future, so that
after it neither the time nor another forced flush makes the log flush its file as long as there
are fewer records than the limit. Texts get there only when the buffer is full. -/
theorem run_forced (env : Env) (w : Logger) (k : ℕ) (events : List Event)
    (hb : w.backend = some .file) (hr : w.reentry = false) (hk : w.logFile.file = some k)
    (hdo : w.logFile.flushCounter ≥ w.logFile.flushCounterMax ∨
      w.logFile.flushLast + w.logFile.flushInterval < farFuture)
    (hi : 0 ≤ w.logFile.flushInterval) (hmax : w.logFile.flushCounterMax < 2 ^ 32)
    (hq : ∀ e ∈ events, e.Quiet)
    (hn : (events.filterMap Event.record).length < w.logFile.flushCounterMax)
    (hnow : w.now + (events.map Event.elapsed).sum ≤ farFuture) :
    let w' := Event.exec env (.flush true) w
    w'.files.buffer k = [] ∧ ∀ before e after, events = before ++ e :: after → e.Flushing →
      e.exec env (run env before w') = run env before w' := by
  have hw : Event.exec env (.flush true) w = w.fflush.setLogFile
      { w.logFile with flushCounter := 0, flushLast := farFuture } := by
    rw [Event.exec, Logger.flush, if_pos hb, if_pos (.inl rfl)]
    exact if_pos hdo
  unfold Logger.fflush at hw
  rw [hk] at hw
  dsimp only
  rw [hw]
  refine ⟨Files.buffer_fflush, ?_⟩
  have hforced : Forced k (events.filterMap Event.record).length (events.map Event.elapsed).sum
      ({ w with files := w.files.fflush k }.setLogFile
        { w.logFile with flushCounter := 0, flushLast := farFuture }) :=
    ⟨hb, hr, hk, rfl, hi, (Nat.zero_add _).trans_lt hn, hmax, hnow⟩
  rintro before e after rfl he
  rw [List.filterMap_append, List.length_append, List.map_append, List.sum_append] at hforced
  exact (hforced.run fun x hx => hq x (List.mem_append_left _ hx)).exec_flushing he

theorem run_forced_hi :
    let w := run sampleEnv [.init (some [97]), .log hiRecord]
      (init (some .file) true 0 100 5 'I' (fun _ => none) (fun _ => []) 0)
    let w' := Event.exec sampleEnv (.flush true) w
    w'.files.buffer 1 = [] ∧ ∀ before e after,
      [.log hiRecord, .spill 20, .advance 60, .prepare, .flush true] = before ++ e :: after →
      e.Flushing → e.exec sampleEnv (run sampleEnv before w') = run sampleEnv before w' :=
  run_forced sampleEnv _ 1 [.log hiRecord, .spill 20, .advance 60, .prepare, .flush true]
    (by decide +kernel) (by decide +kernel) (by decide +kernel) (.inr (by decide +kernel))
    (by decide +kernel) (by decide +kernel) (by simp [Event.Quiet]) (by decide +kernel)
    (by decide +kernel)

end Flushed

end Logger

end FrameTransporter
