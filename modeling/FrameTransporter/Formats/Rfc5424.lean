import Mathlib.Data.List.Infix
import Mathlib.Data.List.TakeWhile

/-! # Structured data of syslog messages

The element of structured data in section 6.3 of RFC 5424, as a reader of texts. In
a value a quote, a backslash and a closing bracket are escaped by a backslash, and
a backslash before any other byte stands for itself. A value that is written as it
is reads back exactly when it has no quote and no bracket, and no backslash at its
end or before another one.
-/

namespace Rfc5424

/-- A byte of a name: printable, but no space, `=`, `]` or `"`. -/
def isNameByte (b : UInt8) : Bool := 33 ≤ b && b ≤ 126 && b ≠ 61 && b ≠ 93 && b ≠ 34

/-- `SD-NAME`. -/
def SdName (name : List UInt8) : Prop :=
  name ≠ [] ∧ name.length ≤ 32 ∧ name.all isNameByte = true

/-- Read a name. All readers give what they read and the rest of the text. -/
def sdName (text : List UInt8) : Option (List UInt8 × List UInt8) :=
  let name := text.takeWhile isNameByte
  if name ≠ [] ∧ name.length ≤ 32 then some (name, text.dropWhile isNameByte) else none

/-- The bytes that are escaped in a value. -/
def Escaped (b : UInt8) : Prop := b = 34 ∨ b = 92 ∨ b = 93

instance : DecidablePred Escaped := fun b => inferInstanceAs (Decidable (b = 34 ∨ b = 92 ∨ b = 93))

/-- Put a byte in front of a value that was read. -/
def onto (b : UInt8) (r : Option (List UInt8 × List UInt8)) : Option (List UInt8 × List UInt8) :=
  r.map fun (value, rest) => (b :: value, rest)

/-- `PARAM-VALUE` with the quote behind it. -/
def paramValue : List UInt8 → Option (List UInt8 × List UInt8)
  | [] => none
  | b :: rest =>
    if b = 34 then some ([], rest)
    else if b = 93 then none
    else if b = 92 then
      match rest with
      | [] => none
      | c :: rest =>
        if Escaped c then onto c (paramValue rest) else onto 92 (paramValue (c :: rest))
    else onto b (paramValue rest)

/-- `SD-PARAM`. -/
def sdParam (text : List UInt8) : Option ((List UInt8 × List UInt8) × List UInt8) :=
  match sdName text with
  | some (name, 61 :: 34 :: rest) =>
    (paramValue rest).map fun (value, rest) => ((name, value), rest)
  | _ => none

/-- `*(SP SD-PARAM) "]"`, with at most the given number of parameters and the bracket. -/
def sdParams : ℕ → List UInt8 → Option (List (List UInt8 × List UInt8) × List UInt8)
  | 0, _ => none
  | n + 1, text =>
    match text with
    | 93 :: rest => some ([], rest)
    | 32 :: rest =>
      match sdParam rest with
      | some (param, rest) => (sdParams n rest).map fun (params, rest) => (param :: params, rest)
      | none => none
    | _ => none

/-- An element: its identifier, and its parameters with their values. -/
structure SdElement where
  id : List UInt8
  params : List (List UInt8 × List UInt8)
  deriving DecidableEq, Repr

/-- `SD-ELEMENT`. -/
def sdElement (text : List UInt8) : Option (SdElement × List UInt8) :=
  match text with
  | 91 :: rest =>
    match sdName rest with
    | some (id, rest) =>
      (sdParams text.length rest).map fun (params, rest) => (⟨id, params⟩, rest)
    | none => none
  | _ => none

/-- A value that can be written as it is. -/
def Plain (value : List UInt8) : Prop :=
  34 ∉ value ∧ 93 ∉ value ∧ ¬[92, 92] <:+: value ++ [92]

section Values

variable {b c : UInt8} {value rest text : List UInt8} {r : List UInt8 × List UInt8}

theorem onto_eq_some {o : Option (List UInt8 × List UInt8)} :
    onto b o = some (value, rest) ↔ ∃ v, o = some (v, rest) ∧ value = b :: v := by
  unfold onto
  rw [Option.map_eq_some_iff]
  constructor
  · rintro ⟨⟨v, rest⟩, rfl, ⟨⟩⟩
    exact ⟨v, rfl, rfl⟩
  · rintro ⟨v, rfl, rfl⟩
    exact ⟨(v, rest), rfl, rfl⟩

@[simp] theorem paramValue_quote : paramValue (34 :: rest) = some ([], rest) := by
  rw [paramValue.eq_def]
  exact if_pos rfl

@[simp] theorem paramValue_bracket : paramValue (93 :: rest) = none := by
  rw [paramValue.eq_def]
  exact (if_neg (by decide)).trans (if_pos rfl)

theorem paramValue_escaped (h : Escaped c) :
    paramValue (92 :: c :: rest) = onto c (paramValue rest) := by
  rw [paramValue.eq_def]
  exact ((if_neg (by decide)).trans (if_neg (by decide))).trans ((if_pos rfl).trans (if_pos h))

theorem paramValue_backslash (h : ¬Escaped c) :
    paramValue (92 :: c :: rest) = onto 92 (paramValue (c :: rest)) := by
  rw [paramValue.eq_def]
  exact ((if_neg (by decide)).trans (if_neg (by decide))).trans ((if_pos rfl).trans (if_neg h))

theorem paramValue_plain (h : ¬Escaped b) :
    paramValue (b :: rest) = onto b (paramValue rest) := by
  rw [Escaped, not_or, not_or] at h
  rw [paramValue.eq_def]
  exact ((if_neg h.1).trans (if_neg h.2.2)).trans (if_neg h.2.1)

theorem plain_nil : Plain [] := by
  refine ⟨by simp, by simp, ?_⟩
  intro h
  exact absurd h.length_le (by decide)

/-- Two backslashes in a row begin with the first byte or lie behind it. -/
theorem infix_backslashes : [92, 92] <:+: b :: text ↔
    b = 92 ∧ text.head? = some 92 ∨ [92, 92] <:+: text := by
  have hhead : [92] <+: text ↔ text.head? = some 92 := by
    cases text with
    | nil => simp
    | cons c text =>
      rw [List.cons_prefix_cons, List.head?_cons, Option.some_inj]
      exact ⟨fun h => h.1.symm, fun h => ⟨h.symm, List.nil_prefix⟩⟩
  rw [List.infix_cons_iff, List.cons_prefix_cons, hhead]
  exact or_congr_left (and_congr_left' eq_comm)

theorem plain_cons (h : ¬Escaped b) : Plain (b :: value) ↔ Plain value := by
  rw [Escaped, not_or, not_or] at h
  obtain ⟨h34, h92, h93⟩ := h
  simp only [Plain, List.mem_cons, not_or, List.cons_append, infix_backslashes, h92, false_and,
    Ne.symm h34, Ne.symm h93, not_false_eq_true, true_and]

theorem plain_backslash (h : ¬Escaped c) : Plain (92 :: c :: value) ↔ Plain (c :: value) := by
  rw [Escaped, not_or, not_or] at h
  simp [Plain, infix_backslashes (b := 92), h.2.1]

/-- A quote, a bracket, and a backslash at the end or before another one. -/
theorem not_plain_quote : ¬Plain (34 :: value) := fun h => h.1 List.mem_cons_self

theorem not_plain_bracket : ¬Plain (93 :: value) := fun h => h.2.1 List.mem_cons_self

theorem not_plain_backslashes : ¬Plain (92 :: 92 :: value) := fun h =>
  h.2.2 (infix_backslashes.mpr (Or.inl ⟨rfl, rfl⟩))

theorem not_plain_last : ¬Plain [92] := fun h => h.2.2 (List.infix_refl _)

/-- A plain value is read as it was written. -/
theorem paramValue_of_plain (h : Plain value) :
    paramValue (value ++ 34 :: rest) = some (value, rest) := by
  induction value with
  | nil => simp
  | cons b value ih =>
    rw [List.cons_append]
    by_cases hb : Escaped b
    · rcases hb with rfl | rfl | rfl
      · exact absurd h not_plain_quote
      · cases value with
        | nil => exact absurd h not_plain_last
        | cons c value =>
          by_cases hc : Escaped c
          · rcases hc with rfl | rfl | rfl
            · exact absurd (List.mem_cons_of_mem _ List.mem_cons_self) h.1
            · exact absurd h not_plain_backslashes
            · exact absurd (List.mem_cons_of_mem _ List.mem_cons_self) h.2.1
          · rw [List.cons_append, paramValue_backslash hc, onto_eq_some]
            exact ⟨_, ih ((plain_backslash hc).mp h), rfl⟩
      · exact absurd h not_plain_bracket
    · rw [paramValue_plain hb, onto_eq_some]
      exact ⟨_, ih ((plain_cons hb).mp h), rfl⟩

/-- Once a backslash was read as an escape, a value is not read as it was written. -/
theorem paramValue_shifted {k : ℕ} :
    paramValue (value ++ 34 :: text) ≠ some (List.replicate (k + 1) 92 ++ value, rest) := by
  intro h
  induction hn : value.length using Nat.strong_induction_on generalizing value k with
  | _ n ih =>
    subst hn
    have hcons : List.replicate (k + 1) 92 ++ value = 92 :: (List.replicate k 92 ++ value) := rfl
    rw [hcons] at h
    cases value with
    | nil => simp at h
    | cons b value =>
      rw [List.cons_append] at h
      by_cases hb : Escaped b
      · rcases hb with rfl | rfl | rfl
        · simp at h
        · cases value with
          | nil =>
            rw [List.nil_append, paramValue_escaped (Or.inl rfl), onto_eq_some] at h
            obtain ⟨v, -, hv⟩ := h
            simp at hv
          | cons c value =>
            rw [List.cons_append] at h
            by_cases hc : Escaped c
            · -- the byte that was escaped is read as a backslash
              rw [paramValue_escaped hc, onto_eq_some] at h
              obtain ⟨v, hv, heq⟩ := h
              obtain ⟨rfl, rfl⟩ := List.cons.inj heq
              have hshift : List.replicate k 92 ++ 92 :: 92 :: value =
                  List.replicate (k + 1 + 1) 92 ++ value := by
                simp [List.replicate_succ']
              rw [hshift] at hv
              have hlt : value.length < (92 :: 92 :: value).length := by
                rw [List.length_cons, List.length_cons]
                omega
              exact ih _ hlt hv rfl
            · rw [paramValue_backslash hc, onto_eq_some] at h
              obtain ⟨v, hv, heq⟩ := h
              obtain ⟨-, rfl⟩ := List.cons.inj heq
              have hshift : List.replicate k 92 ++ 92 :: c :: value =
                  List.replicate (k + 1) 92 ++ c :: value := by
                simp [List.replicate_succ']
              rw [hshift, ← List.cons_append] at hv
              exact ih _ (by simp) hv rfl
        · simp at h
      · rw [paramValue_plain hb, onto_eq_some] at h
        obtain ⟨v, -, heq⟩ := h
        exact hb (Or.inr (Or.inl (List.cons.inj heq).1.symm))

/-- A value is read as it was written exactly if it is plain. -/
theorem paramValue_iff : paramValue (value ++ 34 :: text) = some (value, rest) ↔
    Plain value ∧ rest = text := by
  constructor
  · intro h
    induction value with
    | nil =>
      rw [List.nil_append, paramValue_quote] at h
      cases h
      exact ⟨plain_nil, rfl⟩
    | cons b value ih =>
      rw [List.cons_append] at h
      by_cases hb : Escaped b
      · rcases hb with rfl | rfl | rfl
        · simp at h
        · cases value with
          | nil =>
            rw [List.nil_append, paramValue_escaped (Or.inl rfl), onto_eq_some] at h
            obtain ⟨v, -, hv⟩ := h
            simp at hv
          | cons c value =>
            rw [List.cons_append] at h ih
            by_cases hc : Escaped c
            · rw [paramValue_escaped hc, onto_eq_some] at h
              obtain ⟨v, hv, heq⟩ := h
              obtain ⟨rfl, rfl⟩ := List.cons.inj heq
              exact absurd hv (paramValue_shifted (k := 0))
            · rw [paramValue_backslash hc, onto_eq_some] at h
              obtain ⟨v, hv, heq⟩ := h
              obtain ⟨-, rfl⟩ := List.cons.inj heq
              obtain ⟨hplain, rfl⟩ := ih hv
              exact ⟨(plain_backslash hc).mpr hplain, rfl⟩
        · simp at h
      · rw [paramValue_plain hb, onto_eq_some] at h
        obtain ⟨v, hv, heq⟩ := h
        obtain ⟨-, rfl⟩ := List.cons.inj heq
        obtain ⟨hplain, rfl⟩ := ih hv
        exact ⟨(plain_cons hb).mpr hplain, rfl⟩
  · rintro ⟨h, rfl⟩
    exact paramValue_of_plain h

end Values

section Params

variable {n : ℕ} {name value rest text : List UInt8} {params : List (List UInt8 × List UInt8)}

/-- A name is read up to a byte that is none of a name. -/
theorem sdName_append {b : UInt8} (h : SdName name) (hb : isNameByte b = false) :
    sdName (name ++ b :: rest) = some (name, b :: rest) := by
  obtain ⟨hne, hlength, hall⟩ := h
  have hbytes : ∀ b ∈ name, isNameByte b = true := List.all_eq_true.mp hall
  have htake : (name ++ b :: rest).takeWhile isNameByte = name := by
    rw [List.takeWhile_append_of_pos hbytes]
    simp [hb]
  have hdrop : (name ++ b :: rest).dropWhile isNameByte = b :: rest := by
    rw [List.dropWhile_append_of_pos hbytes]
    simp [hb]
  rw [sdName, htake, hdrop]
  exact if_pos ⟨hne, hlength⟩

/-- Parameters as they are written without escapes. -/
def plainParams (params : List (List UInt8 × List UInt8)) : List UInt8 :=
  params.flatMap fun (name, value) => 32 :: name ++ 61 :: 34 :: value ++ [34]

theorem sdParam_append {p : List UInt8 × List UInt8} (hp : SdName p.1) :
    sdParam (p.1 ++ 61 :: 34 :: (p.2 ++ 34 :: text)) = some (p, rest) ↔
      Plain p.2 ∧ rest = text := by
  obtain ⟨name, value⟩ := p
  rw [sdParam, sdName_append hp (by decide), ← paramValue_iff]
  constructor
  · intro h
    obtain ⟨⟨v, tail⟩, hv, heq⟩ := Option.map_eq_some_iff.mp h
    cases heq
    exact hv
  · intro h
    exact Option.map_eq_some_iff.mpr ⟨_, h, rfl⟩

theorem plainParams_cons {p : List UInt8 × List UInt8} :
    plainParams (p :: params) ++ 93 :: text =
      32 :: (p.1 ++ 61 :: 34 :: (p.2 ++ 34 :: (plainParams params ++ 93 :: text))) := by
  simp [plainParams]

/-- Parameters are read as they were written exactly if their values are plain. -/
theorem sdParams_iff (hn : params.length < n) (hnames : ∀ p ∈ params, SdName p.1) :
    sdParams n (plainParams params ++ 93 :: text) = some (params, rest) ↔
      (∀ p ∈ params, Plain p.2) ∧ rest = text := by
  induction params generalizing n with
  | nil =>
    obtain ⟨m, rfl⟩ := Nat.exists_eq_succ_of_ne_zero hn.ne'
    simp [plainParams, sdParams, eq_comm]
  | cons p params ih =>
    obtain ⟨m, rfl⟩ := Nat.exists_eq_succ_of_ne_zero (Nat.ne_zero_of_lt hn)
    obtain ⟨hp, hnames⟩ := List.forall_mem_cons.mp hnames
    have ih := ih (n := m) (by simpa using hn) hnames
    rw [plainParams_cons, sdParams]
    dsimp only
    rw [List.forall_mem_cons, and_assoc, ← ih]
    constructor
    · intro h
      split at h
      · next p' tail hv =>
        obtain ⟨⟨ps, end'⟩, hps, heq⟩ := Option.map_eq_some_iff.mp h
        cases heq
        obtain ⟨hplain, rfl⟩ := (sdParam_append hp).mp hv
        exact ⟨hplain, hps⟩
      · cases h
    · rintro ⟨hplain, hps⟩
      rw [(sdParam_append hp).mpr ⟨hplain, rfl⟩]
      dsimp only
      rw [hps]
      rfl

/-- Parameters are not read if no parameter follows a space behind them. -/
theorem sdParams_stuck (hplain : ∀ p ∈ params, SdName p.1 ∧ Plain p.2)
    (h : sdParam rest = none) : sdParams n (plainParams params ++ 32 :: rest) = none := by
  induction params generalizing n with
  | nil =>
    cases n with
    | zero => rfl
    | succ n =>
      change (match sdParam rest with
        | some (param, rest) => (sdParams n rest).map fun (params, rest) => (param :: params, rest)
        | none => none) = none
      rw [h]
  | cons p params ih =>
    cases n with
    | zero => rfl
    | succ n =>
      obtain ⟨hp, hplain⟩ := List.forall_mem_cons.mp hplain
      have htext : plainParams (p :: params) ++ 32 :: rest =
          32 :: (p.1 ++ 61 :: 34 :: (p.2 ++ 34 :: (plainParams params ++ 32 :: rest))) := by
        simp [plainParams]
      rw [htext, sdParams]
      dsimp only
      rw [(sdParam_append hp.1).mpr ⟨hp.2, rfl⟩]
      dsimp only
      rw [ih hplain]
      rfl

theorem length_le_plainParams : params.length ≤ (plainParams params).length := by
  induction params with
  | nil => exact Nat.zero_le _
  | cons p params ih =>
    have hcons : (plainParams (p :: params)).length =
        p.1.length + p.2.length + 4 + (plainParams params).length := by
      simp only [plainParams, List.flatMap_cons, List.length_append, List.length_cons,
        List.length_nil]
      omega
    rw [hcons, List.length_cons]
    omega

/-- The parameters of an element are read behind its identifier. -/
theorem sdElement_eq {id : List UInt8} {b : UInt8} (hid : SdName id) (hb : isNameByte b = false) :
    sdElement (91 :: id ++ b :: rest) = (sdParams (91 :: id ++ b :: rest).length (b :: rest)).map
      fun (params, rest) => (⟨id, params⟩, rest) := by
  rw [List.cons_append, sdElement, sdName_append hid hb]

/-- An element is read as it was written exactly if the values of its parameters are plain. -/
theorem sdElement_iff {id : List UInt8} (hid : SdName id) (hnames : ∀ p ∈ params, SdName p.1) :
    sdElement (91 :: id ++ (plainParams params ++ 93 :: text)) = some (⟨id, params⟩, rest) ↔
      (∀ p ∈ params, Plain p.2) ∧ rest = text := by
  obtain ⟨b, tail, hb, htext⟩ : ∃ b tail, isNameByte b = false ∧
      plainParams params ++ 93 :: text = b :: tail := by
    cases params with
    | nil => exact ⟨93, text, by decide, rfl⟩
    | cons p params => exact ⟨32, _, by decide, plainParams_cons⟩
  have hfuel : params.length < (91 :: id ++ (plainParams params ++ 93 :: text)).length := by
    have hle : params.length ≤ (plainParams params).length := length_le_plainParams
    simp only [List.length_append, List.length_cons]
    omega
  rw [← sdParams_iff hfuel hnames, htext, sdElement_eq hid hb]
  constructor
  · intro h
    obtain ⟨⟨ps, end'⟩, hps, heq⟩ := Option.map_eq_some_iff.mp h
    cases heq
    exact hps
  · intro h
    rw [h]
    rfl

/-- An element is not read if no parameter follows a space behind its parameters. -/
theorem sdElement_stuck {id : List UInt8} (hid : SdName id)
    (hplain : ∀ p ∈ params, SdName p.1 ∧ Plain p.2) (h : sdParam rest = none) :
    sdElement (91 :: id ++ (plainParams params ++ 32 :: rest)) = none := by
  have hstuck := sdParams_stuck (n := (91 :: id ++ (plainParams params ++ 32 :: rest)).length)
    hplain h
  obtain ⟨tail, htext⟩ : ∃ tail, plainParams params ++ 32 :: rest = 32 :: tail := by
    cases params with
    | nil => exact ⟨rest, rfl⟩
    | cons p params => exact ⟨_, rfl⟩
  rw [htext] at hstuck ⊢
  rw [sdElement_eq hid (by decide), hstuck]
  rfl

end Params

end Rfc5424
