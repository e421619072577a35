import Mathlib.Tactic.IntervalCases
import FrameTransporter.Codecs.Regroup
import FrameTransporter.Log.Record

/-! # Base32 texts

The encoder writes a text into a buffer, eight characters for five bytes, and tells
how many of the bytes can be decoded from it. It takes back a last character that
completes no byte. Decoding the text gives these bytes, for every size of the buffer
that an `int` can count.
-/

namespace FrameTransporter.Base32

open Codecs Log

/-- `base32_cb32`. -/
def cb32 : List UInt8 := ascii "ABCDEFGHIJKLMNOPQRSTUVWXYZ234567"

/-- The variables of `ft_base32_encode`. -/
structure State where
  buf : ℕ → UInt8
  iout : ℕ
  iin : ℕ

/-- An `int` plus one, which is undefined if it overflows. -/
def incr (n : ℕ) : Option ℕ := if (n : ℤ) < INT_MAX then some (n + 1) else none

/-- Code of the loop in `ft_base32_encode`, which may break. -/
abbrev EncodeM := ExceptT State Option

variable (buflen : ℕ) (udata : List UInt8)

/-- Write one character, of which `digit` tells the bits from the current byte and the next one.
The loop ends, after `back` characters are taken off, if the buffer is full or no data are left. -/
def stage (back : ℕ) (digit : UInt8 → UInt8 → UInt8) (complete : Bool) (s : State) :
    EncodeM State := do
  if s.iout ≥ buflen ∨ s.iin ≥ udata.length then throw { s with iout := s.iout - back }
  else
    let u := udata.getD s.iin 0
    let next := if s.iin + 1 < udata.length then udata.getD (s.iin + 1) 0 else 0
    let buf := Function.update s.buf s.iout (cb32.getD (digit u next).toNat 0)
    let iin ← if complete then liftM (incr s.iin) else pure s.iin
    let iout ← liftM (incr s.iout)
    return { buf, iout, iin }

/-- The loop body of `ft_base32_encode`. -/
def round (s : State) : EncodeM State := do
  let s ← stage buflen udata 0 (fun u _ => (u &&& 0xf8) >>> 3) false s
  let s ← stage buflen udata 1 (fun u v => ((u &&& 0x07) <<< 2) ||| ((v &&& 0xc0) >>> 6)) true s
  let s ← stage buflen udata 0 (fun u _ => (u &&& 0x3e) >>> 1) false s
  let s ← stage buflen udata 1 (fun u v => ((u &&& 0x01) <<< 4) ||| ((v &&& 0xf0) >>> 4)) true s
  let s ← stage buflen udata 0 (fun u v => ((u &&& 0x0f) <<< 1) ||| ((v &&& 0x80) >>> 7)) true s
  let s ← stage buflen udata 0 (fun u _ => (u &&& 0x7c) >>> 2) false s
  let s ← stage buflen udata 1 (fun u v => ((u &&& 0x03) <<< 3) ||| ((v &&& 0xe0) >>> 5)) true s
  stage buflen udata 0 (fun u _ => u &&& 0x1f) true s

/-- The loop of `ft_base32_encode`, for at most the given number of rounds. -/
def loop : ℕ → State → Option State
  | 0, _ => none
  | n + 1, s =>
    match (round buflen udata s).run with
    | none => none
    | some (.error s) => some s
    | some (.ok s) => loop n s

/-- `ft_base32_encode`: its result, the new length in `buflen` and the buffer. -/
def encode (buf : ℕ → UInt8) : Option (ℕ × ℕ × (ℕ → UInt8)) :=
  (loop buflen udata (udata.length + 1) ⟨buf, 0, 0⟩).map fun s =>
    (s.iout, s.iin, Function.update s.buf s.iout 0)

/-- The five bits that a character stands for. -/
def value (c : UInt8) : Option ℕ :=
  if 65 ≤ c ∧ c ≤ 90 then some (c.toNat - 65)
  else if 50 ≤ c ∧ c ≤ 55 then some (c.toNat - 24)
  else none

/-- The whole bytes that a text stands for. -/
def decode (text : List UInt8) : Option (List UInt8) :=
  (text.mapM value).map fun vs => (regroup 5 8 (5 * vs.length / 8) vs).map UInt8.ofNat

section Digits

theorem value_cb32 {d : ℕ} (h : d < 32) : value (cb32.getD d 0) = some d := by
  have hall : ∀ d < 32, value (cb32.getD d 0) = some d := by decide
  exact hall d h

theorem mapM_value {ds : List ℕ} (h : ∀ d ∈ ds, d < 32) :
    (ds.map fun d => cb32.getD d 0).mapM value = some ds := by
  induction ds with
  | nil => rfl
  | cons d ds ih =>
    rw [List.map_cons, List.mapM_cons, value_cb32 (h d (by simp)),
      ih fun e he => h e (List.mem_cons_of_mem _ he)]
    rfl

/-- The bytes of the data as digits. -/
def bytes (udata : List UInt8) : List ℕ := udata.map UInt8.toNat

theorem bytes_lt {d : ℕ} (h : d ∈ bytes udata) : d < 2 ^ 8 := by
  obtain ⟨b, -, rfl⟩ := List.mem_map.mp h
  exact b.toNat_lt

/-- Decoding the first characters of the text gives the bytes that they complete. -/
theorem decode_digits {n m : ℕ} (hn : n = (8 * m + 4) / 5) (hm : m ≤ udata.length) :
    decode ((regroup 8 5 n (bytes udata)).map fun d => cb32.getD d 0) = some (udata.take m) := by
  have hlt : ∀ d ∈ regroup 8 5 n (bytes udata), d < 32 := by
    intro d hd
    obtain ⟨i, -, rfl⟩ := List.mem_map.mp hd
    exact digitAt_lt
  have hcount : 5 * n / 8 = m := by omega
  rw [decode, mapM_value hlt, Option.map_some, length_regroup, hcount,
    regroup_regroup (by decide) (fun d hd => bytes_lt udata hd) (by omega) (by simpa [bytes]),
    bytes, ← List.map_take, List.map_map]
  congr 1
  exact List.map_id'' (fun b => UInt8.ofNat_toNat) _

/-- Five bits of two bytes, from the bit number `o` on. -/
def window (u v : UInt8) (o : ℕ) : ℕ := (2 ^ 8 * u.toNat + v.toNat) / 2 ^ (11 - o) % 2 ^ 5

/-- The stage computes the five bits from the bit number `o` on. -/
def Picks (o : ℕ) (digit : UInt8 → UInt8 → UInt8) : Prop := ∀ u v, (digit u v).toNat = window u v o

theorem testBit_window {u v : UInt8} {o t : ℕ} (ho : o < 8) (ht : t < 5) :
    (window u v o).testBit (4 - t) =
      if o + t < 8 then u.toNat.testBit (7 - (o + t)) else v.toNat.testBit (15 - (o + t)) := by
  have hadd : 4 - t + (11 - o) = 15 - (o + t) := by omega
  have hlt : 4 - t < 5 := by omega
  rw [window, Nat.testBit_mod_two_pow, Nat.testBit_div_two_pow, hadd,
    Nat.testBit_two_pow_mul_add _ v.toNat_lt]
  by_cases h : o + t < 8
  · have hsub : 15 - (o + t) - 8 = 7 - (o + t) := by omega
    rw [if_pos h, if_neg (by omega), hsub]
    simp [hlt]
  · rw [if_neg h, if_pos (by omega)]
    simp [hlt]

theorem forall_byte {P : UInt8 → Prop} (h : ∀ n < 256, P (UInt8.ofNat n)) (u : UInt8) : P u := by
  have hu := h u.toNat u.toNat_lt
  rwa [UInt8.ofNat_toNat] at hu

/-- A stage that takes its bits from one byte. -/
theorem picks_one {o : ℕ} {f : UInt8 → UInt8} (ho : o ≤ 3)
    (hf : ∀ n < 256, (f (.ofNat n)).toNat = (UInt8.ofNat n).toNat / 2 ^ (3 - o) % 2 ^ 5) :
    Picks o fun u _ => f u := by
  intro u v
  have hu := forall_byte (P := fun u => (f u).toNat = u.toNat / 2 ^ (3 - o) % 2 ^ 5) hf u
  have hv := v.toNat_lt
  rw [hu, window]
  interval_cases o <;> omega

/-- A stage that takes its bits from the end of one byte and the start of the next one. -/
theorem picks_or {o : ℕ} {f g : UInt8 → UInt8} (ho : 3 < o) (ho' : o < 8)
    (hf : ∀ n < 256, (f (.ofNat n)).toNat = 2 ^ (o - 3) * ((UInt8.ofNat n).toNat % 2 ^ (8 - o)))
    (hg : ∀ n < 256, (g (.ofNat n)).toNat = (UInt8.ofNat n).toNat / 2 ^ (11 - o)) :
    Picks o fun u v => f u ||| g v := by
  intro u v
  have hu := forall_byte (P := fun u => (f u).toNat = 2 ^ (o - 3) * (u.toNat % 2 ^ (8 - o))) hf u
  have hv := forall_byte (P := fun v => (g v).toNat = v.toNat / 2 ^ (11 - o)) hg v
  have hlt := v.toNat_lt
  have hg' : (g v).toNat < 2 ^ (o - 3) := by
    rw [hv]
    interval_cases o <;> omega
  rw [UInt8.toNat_or, hu, ← Nat.two_pow_add_eq_or_of_lt hg', hv, window]
  interval_cases o <;> omega

/-- The digits of the text are windows in the data. -/
theorem digitAt_window {i : ℕ} : digitAt 8 5 (bytes udata) i =
    window (udata.getD (5 * i / 8) 0) (udata.getD (5 * i / 8 + 1) 0) (5 * i % 8) := by
  have hget : ∀ j, (bytes udata).getD j 0 = (udata.getD j 0).toNat := by
    intro j
    rw [bytes, List.getD_eq_getElem?_getD, List.getElem?_map, List.getD_eq_getElem?_getD]
    cases udata[j]? <;> rfl
  have hlt : window (udata.getD (5 * i / 8) 0) (udata.getD (5 * i / 8 + 1) 0) (5 * i % 8) < 2 ^ 5 :=
    Nat.mod_lt _ (by decide)
  refine Eq.trans (congrArg ofBits (List.map_congr_left fun t ht => ?_)) (ofBits_bits hlt)
  have ht : t < 5 := List.mem_range.mp ht
  rw [Nat.add_one_sub_one, testBit_window (by omega) ht, bitAt, hget]
  split
  · have hq : (5 * i + t) / 8 = 5 * i / 8 := by omega
    have hr : 8 - 1 - (5 * i + t) % 8 = 7 - (5 * i % 8 + t) := by omega
    rw [hq, hr]
  · have hq : (5 * i + t) / 8 = 5 * i / 8 + 1 := by omega
    have hr : 8 - 1 - (5 * i + t) % 8 = 15 - (5 * i % 8 + t) := by omega
    rw [hq, hr]

end Digits

section Loop

variable {buflen udata} {s s' : State} {buf : ℕ → UInt8}

/-- The code returns, by a break with `Q` or at its end with `R`. -/
def Ends (Q R : State → Prop) (m : EncodeM State) : Prop :=
  ∃ r, m.run = some r ∧ match r with
    | .error s => Q s
    | .ok s => R s

theorem Ends.bind {Q R R' : State → Prop} {m : EncodeM State} {k : State → EncodeM State}
    (hm : Ends Q R m) (hk : ∀ s, R s → Ends Q R' (k s)) : Ends Q R' (m >>= k) := by
  obtain ⟨r, hr, h⟩ := hm
  cases r with
  | error s => exact ⟨.error s, by rw [ExceptT.run_bind, hr]; rfl, h⟩
  | ok s =>
    obtain ⟨r', hr', h'⟩ := hk s h
    exact ⟨r', by rw [ExceptT.run_bind, hr]; exact hr', h'⟩

/-- The first `n` characters of the text are in the buffer, which is unchanged behind its size. -/
structure Written (buf : ℕ → UInt8) (buflen : ℕ) (udata : List UInt8) (n : ℕ) (buf' : ℕ → UInt8) :
    Prop where
  text : ∀ i < n, buf' i = cb32.getD (digitAt 8 5 (bytes udata) i) 0
  behind : ∀ i, buflen < i → buf' i = buf i

/-- The state in front of a stage. The bytes in use are those that the characters complete. -/
structure Running (buf : ℕ → UInt8) (buflen : ℕ) (udata : List UInt8) (s : State) : Prop where
  written : Written buf buflen udata s.iout s.buf
  room : s.iout ≤ buflen
  read : s.iin ≤ udata.length
  complete : s.iin = 5 * s.iout / 8

/-- The state after the loop. -/
structure Done (buf : ℕ → UInt8) (buflen : ℕ) (udata : List UInt8) (s : State) : Prop where
  written : Written buf buflen udata s.iout s.buf
  room : s.iout ≤ buflen
  iin : s.iin = min udata.length (5 * buflen / 8)
  iout : s.iout = (8 * s.iin + 4) / 5

theorem incr_of_lt {n : ℕ} (h : (n : ℤ) < INT_MAX) : incr n = some (n + 1) := if_pos h

/-- A stage writes the next character, or the loop ends with the characters that complete a byte. -/
theorem stage_ends {back : ℕ} {digit : UInt8 → UInt8 → UInt8} {complete : Bool}
    (hbuf : (buflen : ℤ) ≤ INT_MAX) (h : Running buf buflen udata s)
    (hdigit : Picks (5 * s.iout % 8) digit)
    (hback : s.iout - back = (8 * s.iin + 4) / 5)
    (hcomplete : complete = decide (5 * (s.iout + 1) / 8 = s.iin + 1)) :
    Ends (Done buf buflen udata)
      (fun s' => Running buf buflen udata s' ∧ s'.iout = s.iout + 1 ∧ s.iin < udata.length)
      (stage buflen udata back digit complete s) := by
  obtain ⟨hw, hroom, hread, hc⟩ := h
  unfold stage
  split
  · next hfull =>
    refine ⟨.error { s with iout := s.iout - back }, rfl, ?_, ?_, ?_, hback⟩
    · exact ⟨fun i hi => hw.text i (Nat.lt_of_lt_of_le hi (Nat.sub_le _ _)), hw.behind⟩
    · exact (Nat.sub_le _ _).trans hroom
    · change s.iin = _
      rcases hfull with hfull | hfull <;> omega
  · next hfull =>
    have hnext : (if s.iin + 1 < udata.length then udata.getD (s.iin + 1) 0 else 0) =
        udata.getD (s.iin + 1) 0 := by
      split
      · rfl
      · next hn => rw [List.getD_eq_default _ _ (by omega)]
    have hiin : (if complete = true then incr s.iin else some s.iin) =
        some (5 * (s.iout + 1) / 8) := by
      subst hcomplete
      by_cases hd : 5 * (s.iout + 1) / 8 = s.iin + 1
      · rw [if_pos (by simpa using hd), incr_of_lt (by omega), hd]
      · rw [if_neg (by simpa using hd)]
        congr 1
        omega
    have hchar : (digit (udata.getD s.iin 0) (udata.getD (s.iin + 1) 0)).toNat =
        digitAt 8 5 (bytes udata) s.iout := by
      rw [hdigit, digitAt_window, hc]
    refine ⟨.ok ⟨Function.update s.buf s.iout
      (cb32.getD (digitAt 8 5 (bytes udata) s.iout) 0), s.iout + 1, 5 * (s.iout + 1) / 8⟩, ?_,
      ⟨⟨fun i hi => ?_, fun i hi => ?_⟩, ?_, ?_, rfl⟩, rfl, by omega⟩
    · simp only [hnext]
      rw [← hchar]
      cases complete with
      | true =>
        rw [if_pos rfl] at hiin
        simp only [if_true, hiin, incr_of_lt (show (s.iout : ℤ) < INT_MAX by omega)]
        rfl
      | false =>
        rw [if_neg (by simp)] at hiin
        rw [← Option.some.inj hiin]
        simp only [Bool.false_eq_true, if_false, incr_of_lt (show (s.iout : ℤ) < INT_MAX by omega)]
        rfl
    · change i < s.iout + 1 at hi
      change Function.update s.buf s.iout _ i = _
      rcases Nat.lt_succ_iff_lt_or_eq.mp hi with hi | rfl
      · rw [Function.update_of_ne (by omega)]
        exact hw.text i hi
      · exact Function.update_self _ _ _
    · change Function.update s.buf s.iout _ i = buf i
      rw [Function.update_of_ne (by omega)]
      exact hw.behind i hi
    · change s.iout + 1 ≤ buflen
      omega
    · change 5 * (s.iout + 1) / 8 ≤ udata.length
      omega

/-- One round of the loop writes eight characters, unless it ends. -/
theorem round_ends (hbuf : (buflen : ℤ) ≤ INT_MAX) (h : Running buf buflen udata s)
    (h0 : s.iout % 8 = 0) :
    Ends (Done buf buflen udata)
      (fun s' => Running buf buflen udata s' ∧ s'.iout = s.iout + 8 ∧ s.iin < udata.length)
      (round buflen udata s) := by
  obtain ⟨k, hk⟩ : ∃ k, s.iout = 8 * k := ⟨s.iout / 8, by omega⟩
  have hp₀ : Picks 0 fun u _ => (u &&& 0xf8) >>> 3 := picks_one (by decide) (by decide +kernel)
  have hp₁ : Picks 5 fun u v => ((u &&& 0x07) <<< 2) ||| ((v &&& 0xc0) >>> 6) :=
    picks_or (by decide) (by decide) (by decide +kernel) (by decide +kernel)
  have hp₂ : Picks 2 fun u _ => (u &&& 0x3e) >>> 1 := picks_one (by decide) (by decide +kernel)
  have hp₃ : Picks 7 fun u v => ((u &&& 0x01) <<< 4) ||| ((v &&& 0xf0) >>> 4) :=
    picks_or (by decide) (by decide) (by decide +kernel) (by decide +kernel)
  have hp₄ : Picks 4 fun u v => ((u &&& 0x0f) <<< 1) ||| ((v &&& 0x80) >>> 7) :=
    picks_or (by decide) (by decide) (by decide +kernel) (by decide +kernel)
  have hp₅ : Picks 1 fun u _ => (u &&& 0x7c) >>> 2 := picks_one (by decide) (by decide +kernel)
  have hp₆ : Picks 6 fun u v => ((u &&& 0x03) <<< 3) ||| ((v &&& 0xe0) >>> 5) :=
    picks_or (by decide) (by decide) (by decide +kernel) (by decide +kernel)
  have hp₇ : Picks 3 fun u _ => u &&& 0x1f := picks_one (by decide) (by decide +kernel)
  -- the state in front of the stage number `j`
  have step : ∀ (j : ℕ) {back : ℕ} {digit : UInt8 → UInt8 → UInt8} {complete : Bool},
      Picks (5 * j % 8) digit → j < 8 → j - back = (8 * (5 * j / 8) + 4) / 5 → back ≤ j →
      complete = decide (5 * (j + 1) / 8 = 5 * j / 8 + 1) → ∀ s',
      Running buf buflen udata s' ∧ s'.iout = 8 * k + j ∧ (0 < j → s.iin < udata.length) →
      (j = 0 → s' = s) →
      Ends (Done buf buflen udata) (fun s'' => Running buf buflen udata s'' ∧
        s''.iout = 8 * k + (j + 1) ∧ (0 < j + 1 → s.iin < udata.length))
        (stage buflen udata back digit complete s') := by
    rintro j back digit complete hp hj hback hle hcomplete s' ⟨h', hout, hread⟩ hs
    have hin : s'.iin = 5 * k + 5 * j / 8 := by
      rw [h'.complete, hout]
      omega
    have hnext : 5 * (s'.iout + 1) / 8 = 5 * k + 5 * (j + 1) / 8 := by
      rw [hout]
      omega
    have hp' : Picks (5 * s'.iout % 8) digit := by
      rwa [hout, show 5 * (8 * k + j) % 8 = 5 * j % 8 by omega]
    have hback' : s'.iout - back = (8 * s'.iin + 4) / 5 := by
      rw [hin, hout]
      omega
    have hcomplete' : complete = decide (5 * (s'.iout + 1) / 8 = s'.iin + 1) := by
      rw [hcomplete, decide_eq_decide, hnext, hin]
      omega
    obtain ⟨r, hr, hend⟩ := stage_ends hbuf h' hp' hback' hcomplete'
    refine ⟨r, hr, ?_⟩
    cases r with
    | error s'' => exact hend
    | ok s'' =>
      obtain ⟨h'', hout', hread'⟩ := hend
      refine ⟨h'', by omega, fun _ => ?_⟩
      by_cases hj0 : j = 0
      · rwa [hs hj0] at hread'
      · exact hread (by omega)
  have hstart : Running buf buflen udata s ∧ s.iout = 8 * k + 0 ∧ (0 < 0 → s.iin < udata.length) :=
    ⟨h, hk, fun h0 => absurd h0 (by decide)⟩
  have hend : Ends (Done buf buflen udata) (fun s' => Running buf buflen udata s' ∧
      s'.iout = 8 * k + 8 ∧ (0 < 8 → s.iin < udata.length)) (round buflen udata s) := by
    unfold round
    refine .bind (step 0 hp₀ (by decide) rfl (by decide) rfl s hstart fun _ => rfl) fun s₁ h₁ => ?_
    refine .bind (step 1 hp₁ (by decide) rfl (by decide) rfl s₁ h₁ (by simp)) fun s₂ h₂ => ?_
    refine .bind (step 2 hp₂ (by decide) rfl (by decide) rfl s₂ h₂ (by simp)) fun s₃ h₃ => ?_
    refine .bind (step 3 hp₃ (by decide) rfl (by decide) rfl s₃ h₃ (by simp)) fun s₄ h₄ => ?_
    refine .bind (step 4 hp₄ (by decide) rfl (by decide) rfl s₄ h₄ (by simp)) fun s₅ h₅ => ?_
    refine .bind (step 5 hp₅ (by decide) rfl (by decide) rfl s₅ h₅ (by simp)) fun s₆ h₆ => ?_
    refine .bind (step 6 hp₆ (by decide) rfl (by decide) rfl s₆ h₆ (by simp)) fun s₇ h₇ => ?_
    exact step 7 hp₇ (by decide) rfl (by decide) rfl s₇ h₇ (by simp)
  obtain ⟨r, hr, hend⟩ := hend
  refine ⟨r, hr, ?_⟩
  cases r with
  | error s' => exact hend
  | ok s' => exact ⟨hend.1, by omega, hend.2.2 (by decide)⟩

/-- The loop comes to its end. -/
theorem loop_done (hbuf : (buflen : ℤ) ≤ INT_MAX) {n : ℕ} (h : Running buf buflen udata s)
    (h0 : s.iout % 8 = 0) (hn : udata.length < n + s.iin) :
    ∃ s', loop buflen udata n s = some s' ∧ Done buf buflen udata s' := by
  induction n generalizing s with
  | zero =>
    have := h.read
    omega
  | succ n ih =>
    obtain ⟨r, hr, hend⟩ := round_ends hbuf h h0
    rw [loop, hr]
    cases r with
    | error s' => exact ⟨s', rfl, hend⟩
    | ok s' =>
      obtain ⟨h', hout, hread⟩ := hend
      have hin := h.complete
      have hin' := h'.complete
      exact ih h' (by omega) (by omega)

end Loop

/-- In a buffer of at most `INT_MAX` bytes the encoder leaves a terminated text, writes nothing
behind, and the text decodes to the bytes that it says were used: as many as have room. -/
theorem encode_decodes (buflen : ℕ) (udata : List UInt8) (buf : ℕ → UInt8)
    (hbuf : (buflen : ℤ) ≤ INT_MAX) : ∃ n buf',
    encode buflen udata buf = some (n, min udata.length (5 * buflen / 8), buf') ∧ n ≤ buflen ∧
      buf' n = 0 ∧ (∀ i, buflen < i → buf' i = buf i) ∧
      decode ((List.range n).map buf') = some (udata.take (5 * buflen / 8)) := by
  have hstart : Running buf buflen udata ⟨buf, 0, 0⟩ :=
    ⟨⟨fun i hi => absurd hi (Nat.not_lt_zero i), fun _ _ => rfl⟩, Nat.zero_le _, Nat.zero_le _,
      by simp⟩
  obtain ⟨s, hs, hw, hroom, hin, hout⟩ := loop_done hbuf hstart rfl (Nat.lt_succ_self _)
  refine ⟨s.iout, Function.update s.buf s.iout 0, ?_, hroom, Function.update_self _ _ _,
    fun i hi => ?_, ?_⟩
  · rw [encode, hs, Option.map_some, hin]
  · rw [Function.update_of_ne (by omega)]
    exact hw.behind i hi
  · have htext : (List.range s.iout).map (Function.update s.buf s.iout 0) =
        (regroup 8 5 s.iout (bytes udata)).map fun d => cb32.getD d 0 := by
      rw [regroup, List.map_map]
      refine List.map_congr_left fun i hi => ?_
      have hi : i < s.iout := List.mem_range.mp hi
      rw [Function.update_of_ne (by omega)]
      exact hw.text i hi
    have htake : udata.take s.iin = udata.take (5 * buflen / 8) := by
      rw [hin, Nat.min_comm, ← List.take_eq_take_min]
    rw [htext, decode_digits udata hout (by omega), htake]

/-- Three of these bytes fit. -/
theorem encode_decodes_hello : ∃ n buf',
    encode 5 (ascii "hello") (fun _ => 9) = some (n, 3, buf') ∧ n ≤ 5 ∧ buf' n = 0 ∧
      (∀ i, 5 < i → buf' i = 9) ∧ decode ((List.range n).map buf') = some (ascii "hel") :=
  encode_decodes 5 (ascii "hello") (fun _ => 9) (by decide)

example : (encode 99 (ascii "12345") fun _ => 9).map (fun r => (r.1, r.2.1,
    (List.range 9).map r.2.2)) = some (8, 5, ascii "GEZDGNBV" ++ [0]) := by decide

end FrameTransporter.Base32
