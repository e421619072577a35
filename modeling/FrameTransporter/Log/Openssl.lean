import Mathlib.Algebra.Order.BigOperators.Group.List
import FrameTransporter.Log.Record

/-! # Logging the errors of OpenSSL

The errors that OpenSSL has queued are printed behind the message of a log record,
one line each. The length of the message grows by what each line should have taken.
Every line goes into the buffer as long as these lengths add up to no more than it
holds, and only then.
-/

namespace FrameTransporter

namespace Log

/-- `ERR_TXT_STRING`. -/
def ERR_TXT_STRING : ℕ := 1

/-- An error in the queue of OpenSSL; the code of an empty queue is zero. -/
structure OpensslError where
  code : ℕ
  code_ne_zero : code ≠ 0
  file : List UInt8
  line : ℤ
  data : List UInt8
  flags : ℕ

/-- Where an `snprintf` prints to, counted from the message, and the size it is given. -/
structure Print where
  offset : ℤ
  size : ℕ
  deriving DecidableEq, Repr

/-- The message while lines are added: its memory, `le_message_length` and the calls of `snprintf`
so far. -/
structure Message where
  memory : ℤ → UInt8
  length : ℤ
  prints : List Print

/-- What `ERR_error_string_n` answers for a code, before it is cut, and `CRYPTO_thread_id`. -/
structure OpensslEnv extends Env where
  errorString : ℕ → List UInt8
  threadId : ℕ

variable (env : OpensslEnv)

/-- The line of a queued error. -/
def opensslLine (e : OpensslError) : List UInt8 :=
  ascii "\n                                       SSL: " ++ decimal env.threadId ++ ascii ":" ++
    snprintf 256 (env.errorString e.code) ++ ascii ":" ++ e.file ++ ascii ":" ++ signed e.line ++
    ascii ":" ++ (if e.flags &&& ERR_TXT_STRING ≠ 0 then e.data else [])

/-- The loop body of `_ft_log_openssl_err_v`. -/
def addOpensslLine (m : Message) (e : OpensslError) : Option Message := do
  let used ← addInt m.length 1
  let size := toSize (SIZEOF_MESSAGE - used)
  let text := opensslLine env e
  let length ← addInt m.length (printed text)
  return {
    memory := vsnprintf m.memory m.length size text
    length := length
    prints := m.prints ++ [⟨m.length, size⟩] }

/-- The loop of `_ft_log_openssl_err_v` over the queued errors. -/
def addOpensslLines : List OpensslError → Message → Option Message
  | [], m => some m
  | e :: es, m => do
    let m ← addOpensslLine env m e
    addOpensslLines es m

/-- The structured data of `_ft_log_openssl_err_v`, with the code of the first error. -/
def opensslSd (errors : List OpensslError) : List LogSd :=
  let code := (errors.head?.map OpensslError.code).getD 0
  [⟨ascii "es", ascii "O"⟩, ⟨ascii "e", snprintf 15 (decimal code)⟩,
    ⟨ascii "E", snprintf 1024 (env.errorString code)⟩]

/-- `_ft_log_openssl_err_v`, up to the call of `ft_logrecord_process` with the record and the
length. The result is null if a sum overflows. -/
def logOpensslErrV (memory : ℤ → UInt8) (level : UInt8) (text : Option (List UInt8))
    (errors : List OpensslError) : Option (LogRecord × Message) := do
  let (le, length) := logrecordBuild env.toEnv memory level (opensslSd env errors) text
  let m ← addOpensslLines env errors ⟨le.message, length, []⟩
  return ({ le with message := m.memory }, m)

/-- The length that the message has on its own. -/
def messageLength : Option (List UInt8) → ℤ
  | some text => printed text
  | none => 0

/-- The call stays inside of the buffer. -/
def Print.Inside (p : Print) : Prop := 0 ≤ p.offset ∧ p.offset + p.size ≤ SIZEOF_MESSAGE

/-- Every call stayed inside of the buffer and so does the message. -/
structure Message.Inside (m : Message) : Prop where
  prints : ∀ p ∈ m.prints, p.Inside
  length : m.length < SIZEOF_MESSAGE

/-- The lengths of the lines of the errors, added up. -/
def linesLength (errors : List OpensslError) : ℤ :=
  (errors.map fun e => printed (opensslLine env e)).sum

/-- From a length on, the lines of the errors add up to what the buffer holds: so does every sum
of the first few, and no line starts before the buffer. -/
def LinesFit (length : ℤ) (errors : List OpensslError) : Prop :=
  ∀ k ≤ errors.length, length + linesLength env (errors.take k) < SIZEOF_MESSAGE ∧
    (k < errors.length → 0 ≤ length + linesLength env (errors.take k))

section Lines

variable {env : OpensslEnv} {m m' : Message} {e : OpensslError} {errors : List OpensslError}
  {length : ℤ}

@[simp] theorem linesLength_nil : linesLength env [] = 0 := rfl

@[simp] theorem linesLength_cons : linesLength env (e :: errors) =
    printed (opensslLine env e) + linesLength env errors := by
  rw [linesLength, List.map_cons, List.sum_cons, linesLength]

@[simp] theorem linesFit_nil : LinesFit env length [] ↔ length < SIZEOF_MESSAGE := by
  simp [LinesFit]

theorem linesFit_cons : LinesFit env length (e :: errors) ↔
    0 ≤ length ∧ length < SIZEOF_MESSAGE ∧
      LinesFit env (length + printed (opensslLine env e)) errors := by
  constructor
  · intro h
    have h₀ := h 0 (Nat.zero_le _)
    rw [List.take_zero, linesLength_nil, add_zero] at h₀
    refine ⟨h₀.2 (Nat.succ_pos _), h₀.1, fun k hk => ?_⟩
    have hk := h (k + 1) (Nat.succ_le_succ hk)
    rw [List.take_succ_cons, linesLength_cons, ← add_assoc] at hk
    exact ⟨hk.1, fun hlt => hk.2 (Nat.succ_lt_succ hlt)⟩
  · rintro ⟨hpos, hle, h⟩ k hk
    cases k with
    | zero =>
      rw [List.take_zero, linesLength_nil, add_zero]
      exact ⟨hle, fun _ => hpos⟩
    | succ k =>
      have hk := h k (Nat.le_of_succ_le_succ hk)
      rw [List.take_succ_cons, linesLength_cons, ← add_assoc]
      exact ⟨hk.1, fun hlt => hk.2 (Nat.lt_of_succ_lt_succ hlt)⟩

/-- If no text is longer than an `int`, only the sum of all lengths counts. -/
theorem linesFit_iff_sum (hlength : 0 ≤ length)
    (herrors : ∀ e ∈ errors, 0 ≤ printed (opensslLine env e)) :
    LinesFit env length errors ↔ length + linesLength env errors < SIZEOF_MESSAGE := by
  induction errors generalizing length with
  | nil => rw [linesFit_nil, linesLength_nil, add_zero]
  | cons e errors ih =>
    have he := herrors e (List.mem_cons_self)
    have hrest : ∀ e ∈ errors, 0 ≤ printed (opensslLine env e) :=
      fun e he => herrors e (List.mem_cons_of_mem _ he)
    have hsum : 0 ≤ linesLength env errors := by
      apply List.sum_nonneg
      intro x hx
      obtain ⟨e, he, rfl⟩ := List.mem_map.mp hx
      exact hrest e he
    rw [linesFit_cons, ih (by omega) hrest, linesLength_cons, ← add_assoc]
    exact ⟨fun h => h.2.2, fun h => ⟨hlength, by omega, h⟩⟩

/-- What adding a line does, unless a sum overflows. -/
theorem addOpensslLine_eq_some : addOpensslLine env m e = some m' ↔
    m' = { memory := vsnprintf m.memory m.length (toSize (SIZEOF_MESSAGE - (m.length + 1)))
             (opensslLine env e)
           length := m.length + printed (opensslLine env e)
           prints := m.prints ++ [⟨m.length, toSize (SIZEOF_MESSAGE - (m.length + 1))⟩] } ∧
      (-INT_MAX - 1 ≤ m.length + 1 ∧ m.length + 1 ≤ INT_MAX) ∧
      -INT_MAX - 1 ≤ m.length + printed (opensslLine env e) ∧
      m.length + printed (opensslLine env e) ≤ INT_MAX := by
  unfold addOpensslLine
  simp only [Option.bind_eq_bind, Option.bind_eq_some_iff, addInt_eq_some, Option.pure_def,
    Option.some.injEq]
  constructor
  · rintro ⟨_, ⟨rfl, hused⟩, _, ⟨rfl, hlength⟩, rfl⟩
    exact ⟨rfl, hused, hlength⟩
  · rintro ⟨rfl, hused, hlength⟩
    exact ⟨_, ⟨rfl, hused⟩, _, ⟨rfl, hlength⟩, rfl⟩

/-- A line is printed inside of the buffer just if it starts there. -/
theorem print_inside_iff (h : -INT_MAX - 1 ≤ length) (h' : length ≤ INT_MAX) :
    Print.Inside ⟨length, toSize (SIZEOF_MESSAGE - (length + 1))⟩ ↔
      0 ≤ length ∧ length < SIZEOF_MESSAGE := by
  unfold Print.Inside toSize SIZEOF_MESSAGE
  unfold INT_MAX at h h'
  dsimp only
  split_ifs <;> omega

/-- The loop stays inside of the buffer if and only if the lines fit. -/
theorem addOpensslLines_inside_iff (h : -INT_MAX - 1 ≤ m.length) (h' : m.length ≤ INT_MAX) :
    (∃ m', addOpensslLines env errors m = some m' ∧ m'.Inside) ↔
      (∀ p ∈ m.prints, p.Inside) ∧ LinesFit env m.length errors := by
  induction errors generalizing m with
  | nil =>
    rw [linesFit_nil]
    constructor
    · rintro ⟨m', hm', hin⟩
      obtain rfl := Option.some.inj hm'
      exact ⟨hin.prints, hin.length⟩
    · rintro ⟨hprints, hlength⟩
      exact ⟨m, rfl, hprints, hlength⟩
  | cons e errors ih =>
    rw [linesFit_cons]
    constructor
    · rintro ⟨m', hm', hin⟩
      obtain ⟨m₁, h₁, hm'⟩ := Option.bind_eq_some_iff.mp hm'
      obtain ⟨rfl, -, hsum, hsum'⟩ := addOpensslLine_eq_some.mp h₁
      obtain ⟨hprints, hfit⟩ := (ih hsum hsum').mp ⟨m', hm', hin⟩
      have hline := (print_inside_iff h h').mp
        (hprints _ (List.mem_append_right _ (List.mem_singleton_self _)))
      exact ⟨fun p hp => hprints p (List.mem_append_left _ hp), hline.1, hline.2, hfit⟩
    · rintro ⟨hprints, hpos, hle, hfit⟩
      have hnext : m.length + printed (opensslLine env e) < SIZEOF_MESSAGE := by
        simpa using (hfit 0 (Nat.zero_le _)).1
      have hprinted := neg_one_le_printed (opensslLine env e)
      have hsum : -INT_MAX - 1 ≤ m.length + printed (opensslLine env e) := by
        unfold INT_MAX
        omega
      have hsum' : m.length + printed (opensslLine env e) ≤ INT_MAX := by
        unfold INT_MAX SIZEOF_MESSAGE at *
        omega
      have hused : -INT_MAX - 1 ≤ m.length + 1 ∧ m.length + 1 ≤ INT_MAX := by
        unfold INT_MAX SIZEOF_MESSAGE at *
        omega
      obtain ⟨m', hm', hin⟩ := (ih (m := ⟨_, _, m.prints ++ [⟨m.length, _⟩]⟩) hsum hsum').mpr
        ⟨fun p hp => (List.mem_append.mp hp).elim (hprints p) fun hp => by
          obtain rfl := List.mem_singleton.mp hp
          exact (print_inside_iff h h').mpr ⟨hpos, hle⟩, hfit⟩
      have h₁ := addOpensslLine_eq_some.mpr ⟨rfl, hused, hsum, hsum'⟩
      exact ⟨m', Option.bind_eq_some_iff.mpr ⟨_, h₁, hm'⟩, hin⟩

theorem logrecordBuild_length {memory : ℤ → UInt8} {level : UInt8} {sd : Option (List LogSd)}
    {text : Option (List UInt8)} :
    (logrecordBuild env.toEnv memory level sd text).2 = messageLength text := by
  cases text <;> rfl

theorem messageLength_bounds (text : Option (List UInt8)) :
    -1 ≤ messageLength text ∧ messageLength text ≤ INT_MAX := by
  cases text with
  | none => exact ⟨by decide, by decide⟩
  | some text => exact ⟨neg_one_le_printed text, printed_le text⟩

/-- Logging the queued errors stays inside of the record if and only if the message and the lines
fit it. -/
theorem logOpensslErrV_inside_iff (env : OpensslEnv) (memory : ℤ → UInt8) (level : UInt8)
    (text : Option (List UInt8)) (errors : List OpensslError) :
    (∃ le m, logOpensslErrV env memory level text errors = some (le, m) ∧ m.Inside) ↔
      LinesFit env (messageLength text) errors := by
  have hbounds := messageLength_bounds text
  have hlines := @addOpensslLines_inside_iff env errors
    (m := ⟨(logrecordBuild env.toEnv memory level (opensslSd env errors) text).1.message,
      messageLength text, []⟩) ((by decide : -INT_MAX - 1 ≤ -1).trans hbounds.1) hbounds.2
  simp only [List.not_mem_nil, false_implies, implies_true, true_and] at hlines
  rw [← hlines]
  unfold logOpensslErrV
  simp only [logrecordBuild_length, Option.bind_eq_bind, Option.bind_eq_some_iff, Option.pure_def,
    Option.some.injEq, Prod.mk.injEq]
  constructor
  · rintro ⟨_, m, ⟨_, hm, _, rfl⟩, hin⟩
    exact ⟨_, hm, hin⟩
  · rintro ⟨m, hm, hin⟩
    exact ⟨_, m, ⟨m, hm, rfl, rfl⟩, hin⟩

/-- A message as long as the buffer, and one queued error: the line goes behind the buffer. -/
theorem not_logOpensslErrV_inside_all : ¬∃ le m, logOpensslErrV
    ⟨⟨0, 1, ascii "app"⟩, fun _ => ascii "error", 1⟩ (fun _ => 0) 69
      (some (List.replicate 2048 97)) [⟨1, by decide, ascii "x.c", 1, [], 0⟩] = some (le, m) ∧
      m.Inside := by
  rintro ⟨le, m, h, hin⟩
  have hlength : printed (List.replicate 2048 97) = 2048 := by
    rw [printed, List.length_replicate]
    rfl
  have hline : ⟨2048, toSize (SIZEOF_MESSAGE - (2048 + 1))⟩ ∈ m.prints := by
    unfold logOpensslErrV logrecordBuild at h
    simp only [hlength, addOpensslLines, Option.bind_eq_bind, Option.bind_eq_some_iff,
      Option.pure_def, Option.some.injEq, Prod.mk.injEq, addOpensslLine_eq_some] at h
    obtain ⟨_, ⟨_, ⟨rfl, -⟩, rfl⟩, -, rfl⟩ := h
    exact List.mem_append_right _ (List.mem_singleton_self _)
  have hstart := (print_inside_iff (by decide) (by decide)).mp (hin.prints _ hline)
  exact absurd hstart.2 (by decide)

end Lines

end Log

end FrameTransporter
