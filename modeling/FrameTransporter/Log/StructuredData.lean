import FrameTransporter.Hoare.Wp
import FrameTransporter.Log.Record
import Mathlib.Algebra.Order.BigOperators.Group.List
import Mathlib.Data.List.TakeWhile

/-! # Structured data as text

Two renderers print the structured data of a record, each into a buffer of its own
that grows when a text needs more room. They differ in how much they allocate, and
in where they store the final zero: one of them misses its place by one, so what it
prints ends where the buffer held a zero before, if it had room to miss.
-/

namespace FrameTransporter

open Hoare Intrusive

namespace Log

/-- Why a renderer does not return: it stores outside of its buffer, `sprintf` fails because its
text is longer than an `int` can tell, or an assertion fails. -/
inductive SdFault
  | outside
  | overflow
  | assertion
  deriving DecidableEq, Repr

/-- The static buffer of a renderer, which is null at first. -/
structure SdBuffer where
  size : ℕ
  memory : ℕ → UInt8

/-- What a renderer returns: a literal, or its buffer. -/
inductive SdText
  | literal (text : List UInt8)
  | buffer

abbrev SdM (α : Type) := Prog SdBuffer SdFault α

/-- The C string at the start of a memory. -/
def cString (bytes : List UInt8) : List UInt8 := bytes.takeWhile (· ≠ 0)

/-- The buffer after the test of its size, where `realloc` answers null or bytes behind the old
ones. -/
def SdBuffer.grow (b : SdBuffer) (len alloc : ℕ) (realloc : Option (ℕ → UInt8)) :
    Option SdBuffer :=
  if b.size < len then
    realloc.map fun fresh =>
      { size := alloc, memory := fun i => if i < b.size then b.memory i else fresh i }
  else some b

def store (c : ℕ) (bytes : List UInt8) : SdM Unit := do
  let b ← get
  if c + bytes.length ≤ b.size then set { b with memory := splice b.memory c bytes }
  else throw .outside

/-- `assert(c < sdbuf + sdbuf_size)`. -/
def assertInside (c : ℕ) : SdM Unit := do
  let b ← get
  if c < b.size then return ()
  else throw .assertion

/-- `sprintf` of a text. The result is the cursor behind it, where the zero is. -/
def sprintf (text : List UInt8) (c : ℕ) : SdM ℕ := do
  if printed text < 0 then throw .overflow
  else
    store c (text ++ [0])
    return c + text.length

/-- An inner double quote is replaced. -/
def backquoted (b : UInt8) : UInt8 := if b = 34 then 96 else b

/-- The loop over the bytes of a value with a space. -/
def storeValue : List UInt8 → ℕ → SdM ℕ
  | [], c => return c
  | b :: bs, c => do
    store c [backquoted b]
    storeValue bs (c + 1)

/-- The loop body over the structured data. -/
def storeItem (sd : LogSd) (c : ℕ) : SdM ℕ := do
  if 32 ∉ cString sd.value then
    sprintf (cString sd.name ++ ascii "=" ++ cString sd.value ++ ascii " ") c
  else
    let c ← sprintf (cString sd.name ++ ascii "=\"") c
    let c ← storeValue (cString sd.value) c
    sprintf (ascii "\" ") c

def storeItems : List LogSd → ℕ → SdM ℕ
  | [], c => return c
  | sd :: sds, c => do
    let c ← storeItem sd c
    assertInside c
    storeItems sds c

/-- The part of a renderer behind the loop. The last zero is stored `last` bytes behind the
cursor. -/
def closeSd (last c : ℕ) : SdM Unit := do
  assertInside (c - 1)
  store (c - 1) (ascii "]")
  assertInside c
  store c (ascii " ")
  assertInside (c + 1)
  store (c + 1 + last) [0]

/-- The part of a renderer behind the allocation. -/
def storeSd (last : ℕ) (sds : List LogSd) : SdM Unit := do
  assertInside 0
  store 0 (ascii "[")
  assertInside 1
  let c ← storeItems sds 1
  closeSd last c

/-- The room that is asked for. -/
def sdLen (room : LogSd → ℕ) (sds : List LogSd) : ℕ := 3 + (sds.map room).sum

/-- A renderer, by the room for an item, the size it allocates and the place of the last zero. -/
def expandSd (room : LogSd → ℕ) (alloc : ℕ → ℕ) (last : ℕ) (realloc : Option (ℕ → UInt8)) :
    Option (List LogSd) → SdM SdText
  | none => return .literal []
  | some sds => do
    let b ← get
    match b.grow (sdLen room sds) (alloc (sdLen room sds)) realloc with
    | none => return .literal (ascii "[NOMEM=1] ")
    | some b =>
      set b
      storeSd last sds
      return .buffer

/-- `ft_logrecord_expand_sd`. -/
def logrecordExpandSd : Option (ℕ → UInt8) → Option (List LogSd) → SdM SdText :=
  expandSd (fun sd => (cString sd.name).length + 2 + (cString sd.value).length + 2) id 1

/-- `ft_log_file_expand_sd`. -/
def logFileExpandSd : Option (ℕ → UInt8) → Option (List LogSd) → SdM SdText :=
  expandSd (fun sd => (cString sd.name).length + 1 + (cString sd.value).length + 2 + 1)
    (fun len => if len < 256 then 256 else len) 0

/-- The item of a pair. A value with a space is quoted. -/
def sdItem (sd : LogSd) : List UInt8 :=
  cString sd.name ++ ascii "=" ++
    if 32 ∈ cString sd.value then
      ascii "\"" ++ (cString sd.value).map backquoted ++ ascii "\""
    else cString sd.value

/-- The text of a list of pairs: its items with single spaces between them, in brackets. -/
def sdText (sds : List LogSd) : List UInt8 :=
  ascii "[" ++ (ascii " ").intercalate (sds.map sdItem) ++ ascii "] "

/-- The result of a renderer is the C string `s`. -/
def Shows (s : List UInt8) (b : SdBuffer) : SdText → Prop
  | .literal text => text = s
  | .buffer => s.length < b.size ∧ slice b.memory 0 s.length = s ∧ 0 ∉ s ∧ b.memory s.length = 0

/-- The renderer stores inside of its buffer only, passes its assertions, and returns the text. -/
def Renders (m : SdM SdText) (sds : List LogSd) (b : SdBuffer) : Prop :=
  wp (fun _ => False) m (fun r b' => Shows (sdText sds) b' r) b

/-- The texts that `sprintf` prints for the pair have a length that is an `int`. -/
def Printable (sd : LogSd) : Prop :=
  if 32 ∉ cString sd.value then
    ((cString sd.name).length + (cString sd.value).length + 2 : ℤ) ≤ INT_MAX
  else ((cString sd.name).length + 2 : ℤ) ≤ INT_MAX

/-- When a renderer shows the text. Without memory it answers a literal, which is the text of one
list. Else there is to be a pair, and a last zero that is stored too far behind has to stay in the
buffer, with a zero before it. -/
def Sound (room : LogSd → ℕ) (alloc : ℕ → ℕ) (last : ℕ) (realloc : Option (ℕ → UInt8))
    (sds : List LogSd) (b : SdBuffer) : Prop :=
  match b.grow (sdLen room sds) (alloc (sdLen room sds)) realloc with
  | none => sdText sds = ascii "[NOMEM=1] "
  | some b => sds ≠ [] ∧ (∀ sd ∈ sds, Printable sd) ∧
    (last ≠ 0 → (sdText sds).length + last < b.size ∧ b.memory (sdText sds).length = 0)

/-- The bytes were stored at `c`, and perhaps a zero behind them. -/
structure Wrote (c : ℕ) (bytes : List UInt8) (b b' : SdBuffer) : Prop where
  size : b'.size = b.size
  below : ∀ i < c, b'.memory i = b.memory i
  stored : slice b'.memory c bytes.length = bytes
  beyond : ∀ i, c + bytes.length < i → b'.memory i = b.memory i

/-- From any cursor with room for a zero behind, `m` stores the text and returns the cursor behind
it. -/
def Prints (text : List UInt8) (m : ℕ → SdM ℕ) : Prop :=
  ∀ c b, c + text.length < b.size → wp (fun _ => False) (m c)
    (fun c' b' => c' = c + text.length ∧ Wrote c text b b') b

section Stores

variable {E : SdFault → Prop} {b b' b'' : SdBuffer} {c : ℕ} {text text' : List UInt8}
  {m m' : ℕ → SdM ℕ} {sd : LogSd} {sds : List LogSd}

theorem wp_store {Q : Unit → SdBuffer → Prop} : wp E (store c text) Q b ↔
    if c + text.length ≤ b.size then Q () { b with memory := splice b.memory c text }
    else E .outside := by
  rw [store, wp_bind, wp_get]
  split <;> rfl

theorem wp_assertInside {Q : Unit → SdBuffer → Prop} :
    wp E (assertInside c) Q b ↔ if c < b.size then Q () b else E .assertion := by
  rw [assertInside, wp_bind, wp_get]
  split <;> rfl

theorem wp_store_of_le {Q : Unit → SdBuffer → Prop} (h : c + text.length ≤ b.size)
    (hQ : Q () { b with memory := splice b.memory c text }) : wp E (store c text) Q b := by
  rw [wp_store, if_pos h]
  exact hQ

theorem wp_assertInside_of_lt {Q : Unit → SdBuffer → Prop} (h : c < b.size) (hQ : Q () b) :
    wp E (assertInside c) Q b := by
  rw [wp_assertInside, if_pos h]
  exact hQ

theorem wrote_nil : Wrote c [] b b := ⟨rfl, fun _ _ => rfl, rfl, fun _ _ => rfl⟩

theorem wrote_splice : Wrote c text b { b with memory := splice b.memory c text } :=
  ⟨rfl, fun _ h => splice_of_lt h, slice_splice_self, fun _ h => splice_of_ge (by omega)⟩

/-- The zero behind a printed text is overwritten by what is printed next. -/
theorem wrote_sprintf : Wrote c text b { b with memory := splice b.memory c (text ++ [0]) } := by
  refine ⟨rfl, fun _ h => splice_of_lt h, ?_, fun i h => splice_of_ge ?_⟩
  · have h : slice (splice b.memory c (text ++ [0])) c (text ++ [0]).length = text ++ [0] :=
      slice_splice_self
    have htake := congrArg (List.take text.length) h
    rw [slice_take (by simp), List.take_left] at htake
    exact htake
  · rw [List.length_append, List.length_singleton]
    omega

theorem Wrote.append (h : Wrote c text b b') (h' : Wrote (c + text.length) text' b' b'') :
    Wrote c (text ++ text') b b'' := by
  constructor
  case size => exact h'.size.trans h.size
  case below => exact fun i hi => (h'.below i (by omega)).trans (h.below i hi)
  case stored =>
    have hfirst : slice b''.memory c text.length = text :=
      (slice_congr fun i _ hi => h'.below i hi).trans h.stored
    rw [List.length_append, slice_add, hfirst, h'.stored]
  case beyond =>
    intro i hi
    rw [List.length_append] at hi
    exact (h'.beyond i (by omega)).trans (h.beyond i (by omega))

theorem prints_nil : Prints [] pure := fun _ _ _ => ⟨rfl, wrote_nil⟩

theorem Prints.append (h : Prints text m) (h' : Prints text' m') :
    Prints (text ++ text') fun c => m c >>= m' := by
  intro c b hc
  rw [List.length_append] at hc
  rw [wp_bind]
  refine wp_mono (h c b (by omega)) ?_
  rintro _ b₁ ⟨rfl, hw⟩
  refine wp_mono (h' _ b₁ (by rw [hw.size]; omega)) ?_
  rintro _ b₂ ⟨rfl, hw'⟩
  exact ⟨by rw [List.length_append, Nat.add_assoc], hw.append hw'⟩

theorem prints_sprintf (h : (text.length : ℤ) ≤ INT_MAX) : Prints text (sprintf text) := by
  intro c b hc
  have hp : ¬printed text < 0 := by
    rw [printed, if_pos h]
    omega
  rw [sprintf, if_neg hp, wp_bind]
  refine wp_store_of_le ?_ ⟨rfl, wrote_sprintf⟩
  rw [List.length_append, List.length_singleton]
  omega

theorem prints_storeValue (bytes : List UInt8) :
    Prints (bytes.map backquoted) (storeValue bytes) := by
  induction bytes with
  | nil => exact prints_nil
  | cons v bytes ih =>
    intro c b hc
    rw [List.map_cons, List.length_cons] at hc
    rw [storeValue, wp_bind]
    have hone : Wrote c [backquoted v] b { b with memory := splice b.memory c [backquoted v] } :=
      wrote_splice
    refine wp_store_of_le (by rw [List.length_singleton]; omega) ?_
    refine wp_mono (ih (c + 1) _ (by dsimp only; omega)) ?_
    rintro _ b₂ ⟨rfl, hw⟩
    exact ⟨by rw [List.map_cons, List.length_cons]; omega, hone.append hw⟩

theorem storeItem_plain (h : 32 ∉ cString sd.value) : storeItem sd =
    sprintf (cString sd.name ++ ascii "=" ++ cString sd.value ++ ascii " ") :=
  funext fun _ => if_pos h

theorem storeItem_quoted (h : 32 ∈ cString sd.value) : storeItem sd = fun c =>
    sprintf (cString sd.name ++ ascii "=\"") c >>= fun c =>
      storeValue (cString sd.value) c >>= sprintf (ascii "\" ") :=
  funext fun _ => if_neg (not_not.mpr h)

/-- A pair prints its item and a space. -/
theorem prints_storeItem (h : Printable sd) : Prints (sdItem sd ++ ascii " ") (storeItem sd) := by
  by_cases hspace : 32 ∈ cString sd.value
  · rw [Printable, if_neg (not_not.mpr hspace)] at h
    have hname : Prints (cString sd.name ++ ascii "=\"")
        (sprintf (cString sd.name ++ ascii "=\"")) :=
      prints_sprintf (le_trans (le_of_eq (by simp [ascii])) h)
    have hclose : Prints (ascii "\" ") (sprintf (ascii "\" ")) := prints_sprintf (by decide)
    have hitem := hname.append ((prints_storeValue (cString sd.value)).append hclose)
    have htext : cString sd.name ++ ascii "=\"" ++
        ((cString sd.value).map backquoted ++ ascii "\" ") = sdItem sd ++ ascii " " := by
      simp [sdItem, hspace, ascii]
    rw [htext] at hitem
    rw [storeItem_quoted hspace]
    exact hitem
  · rw [Printable, if_pos hspace] at h
    have htext : sdItem sd ++ ascii " " =
        cString sd.name ++ ascii "=" ++ cString sd.value ++ ascii " " := by
      rw [sdItem, if_neg hspace]
    rw [storeItem_plain hspace, htext]
    refine prints_sprintf (le_trans (le_of_eq ?_) h)
    simp [ascii]
    ring

theorem sprintf_overflow (h : ¬(text.length : ℤ) ≤ INT_MAX) :
    wp (fun _ => True) (sprintf text c) (fun _ _ => False) b := by
  have hp : printed text < 0 := by simp [printed, h]
  rw [sprintf, if_pos hp]
  trivial

/-- A pair with a text that is too long does not return. -/
theorem storeItem_overflow (h : ¬Printable sd) :
    wp (fun _ => True) (storeItem sd c) (fun _ _ => False) b := by
  by_cases hspace : 32 ∈ cString sd.value
  · rw [Printable, if_neg (not_not.mpr hspace)] at h
    rw [storeItem_quoted hspace, wp_bind]
    refine wp_mono (sprintf_overflow fun hle => h (le_trans (le_of_eq ?_) hle)) fun _ _ =>
      False.elim
    simp [ascii]
  · rw [Printable, if_pos hspace] at h
    rw [storeItem_plain hspace]
    refine sprintf_overflow fun hle => h (le_trans (le_of_eq ?_) hle)
    simp [ascii]
    ring

/-- The pairs print their items, each with a space behind it. -/
theorem prints_storeItems (h : ∀ sd ∈ sds, Printable sd) :
    Prints (sds.flatMap fun sd => sdItem sd ++ ascii " ") (storeItems sds) := by
  induction sds with
  | nil => exact prints_nil
  | cons sd sds ih =>
    intro c b hc
    rw [List.flatMap_cons] at hc ⊢
    have hc' := hc
    rw [List.length_append] at hc'
    rw [storeItems, wp_bind]
    refine wp_mono (prints_storeItem (h sd (by simp)) c b (by omega)) ?_
    rintro _ b₁ ⟨rfl, hw⟩
    rw [wp_bind]
    refine wp_assertInside_of_lt (by rw [hw.size]; omega) ?_
    refine wp_mono (ih (fun sd' hsd => h sd' (List.mem_cons_of_mem _ hsd)) _ b₁
      (by rw [hw.size]; omega)) ?_
    rintro _ b₂ ⟨rfl, hw'⟩
    exact ⟨by simp only [List.length_append]; omega, hw.append hw'⟩

theorem storeItems_overflow (h : ¬∀ sd ∈ sds, Printable sd) :
    wp (fun _ => True) (storeItems sds c) (fun _ _ => False) b := by
  induction sds generalizing c b with
  | nil => exact absurd (by simp) h
  | cons sd sds ih =>
    rw [storeItems, wp_bind]
    by_cases hsd : Printable sd
    · have hsds : ¬∀ sd ∈ sds, Printable sd := fun hall => h (by simpa [hsd] using hall)
      refine wp_intro (fun c' b' _ => ?_) fun _ _ => trivial
      rw [wp_bind, wp_assertInside]
      split
      · exact ih hsds
      · trivial
    · exact wp_mono (storeItem_overflow hsd) fun _ _ => False.elim

end Stores

section Renderers

variable {E : SdFault → Prop} {room : LogSd → ℕ} {alloc : ℕ → ℕ} {last : ℕ}
  {realloc : Option (ℕ → UInt8)} {b b' : SdBuffer} {sd : LogSd} {sds : List LogSd}

/-- The items with a space behind each. -/
theorem flatMap_items (h : sds ≠ []) : (sds.flatMap fun sd => sdItem sd ++ ascii " ") =
    (ascii " ").intercalate (sds.map sdItem) ++ ascii " " := by
  induction sds with
  | nil => exact absurd rfl h
  | cons sd sds ih =>
    cases sds with
    | nil => simp [List.intercalate]
    | cons sd' sds =>
      rw [List.flatMap_cons, ih (by simp)]
      simp [List.intercalate]

theorem length_sdItem_le (sd : LogSd) :
    (sdItem sd).length ≤ (cString sd.name).length + (cString sd.value).length + 3 := by
  unfold sdItem
  split_ifs <;> simp [ascii] <;> omega

theorem zero_not_mem_cString (bytes : List UInt8) : 0 ∉ cString bytes := by
  intro h
  have := List.mem_takeWhile_imp h
  simp at this

theorem zero_not_mem_sdItem (sd : LogSd) : 0 ∉ sdItem sd := by
  have hname := zero_not_mem_cString sd.name
  have hvalue := zero_not_mem_cString sd.value
  have hmap : 0 ∉ (cString sd.value).map backquoted := by
    rw [List.mem_map]
    rintro ⟨v, hv, h⟩
    unfold backquoted at h
    split_ifs at h
    · exact absurd h (by decide)
    · exact hvalue (h ▸ hv)
  unfold sdItem
  split_ifs <;> simp [ascii, hname, hvalue, hmap]

theorem length_flatMap_items (sds : List LogSd) :
    (sds.flatMap fun sd => sdItem sd ++ ascii " ").length =
      (sds.map fun sd => (sdItem sd).length + 1).sum := by
  rw [List.length_flatMap]
  simp [ascii]

/-- The text has the length of the items with a space behind each, and two brackets and a space
less the last of these. -/
theorem length_sdText (h : sds ≠ []) :
    (sdText sds).length = (sds.flatMap fun sd => sdItem sd ++ ascii " ").length + 2 := by
  rw [flatMap_items h, sdText]
  simp [ascii]

theorem length_sdText_lt (h : sds ≠ [])
    (hroom : ∀ sd, (cString sd.name).length + (cString sd.value).length + 4 ≤ room sd) :
    (sdText sds).length < sdLen room sds := by
  have hsum : (sds.map fun sd => (sdItem sd).length + 1).sum ≤ (sds.map room).sum :=
    List.sum_le_sum fun sd _ => by
      have := length_sdItem_le sd
      have := hroom sd
      omega
  rw [length_sdText h, length_flatMap_items, sdLen]
  omega

theorem zero_not_mem_sdText (h : sds ≠ []) : 0 ∉ sdText sds := by
  have hitems : 0 ∉ sds.flatMap fun sd => sdItem sd ++ ascii " " := by
    rw [List.mem_flatMap]
    rintro ⟨sd, -, hsd⟩
    have := zero_not_mem_sdItem sd
    simp_all [ascii]
  rw [flatMap_items h] at hitems
  rw [sdText]
  simp_all [ascii]

/-- What is stored from the end of a text on replaces what was written behind it. -/
theorem Wrote.overwrite {old text bytes : List UInt8} {c : ℕ} (h : Wrote c (text ++ old) b b')
    (hold : old.length ≤ bytes.length) : Wrote c (text ++ bytes) b
      { b' with memory := splice b'.memory (c + text.length) bytes } := by
  constructor
  case size => exact h.size
  case below => exact fun i hi => (splice_of_lt (by omega)).trans (h.below i hi)
  case stored =>
    have hstored := congrArg (List.take text.length) h.stored
    rw [slice_take (by simp), List.take_left] at hstored
    rw [List.length_append, slice_add, slice_splice_self,
      slice_splice_of_disjoint (Or.inl le_rfl), hstored]
  case beyond =>
    intro i hi
    rw [List.length_append] at hi
    refine (splice_of_ge (by omega)).trans (h.beyond i ?_)
    rw [List.length_append]
    omega

/-- What a renderer leaves when its text ends at `n`: the last zero in the buffer, and at `n` either
that zero or the byte from before. -/
def Closed (last n : ℕ) (text : List UInt8) (b b' : SdBuffer) : Prop :=
  n + last < b.size ∧ b'.size = b.size ∧ slice b'.memory 0 n = text ∧
    b'.memory n = if last = 0 then 0 else b.memory n

/-- The last space becomes a bracket. -/
theorem closeSd_closes {text : List UInt8} (h : Wrote 0 (text ++ ascii " ") b b')
    (hsize : text.length + 2 < b.size) :
    wp (fun _ => ¬text.length + 2 + last < b.size) (closeSd last (text.length + 1))
      (fun _ b' => Closed last (text.length + 2) (text ++ ascii "] ") b b') b' := by
  have hbracket := h.overwrite (le_refl (ascii "]").length)
  have hspace := hbracket.append (wrote_splice : Wrote _ (ascii " ") _ _)
  have hb' := h.size
  have hlen : (text ++ ascii "]").length = text.length + 1 := by simp [ascii]
  have htext : text ++ ascii "]" ++ ascii " " = text ++ ascii "] " := by simp [ascii]
  rw [hlen, htext, Nat.zero_add, Nat.zero_add] at hspace
  unfold closeSd
  rw [wp_bind, Nat.add_sub_cancel]
  refine wp_assertInside_of_lt (by omega) ?_
  rw [wp_bind]
  refine wp_store_of_le (by simp [ascii]; omega) ?_
  rw [wp_bind]
  refine wp_assertInside_of_lt (by dsimp only; omega) ?_
  rw [wp_bind]
  refine wp_store_of_le (by simp [ascii]; omega) ?_
  rw [wp_bind]
  refine wp_assertInside_of_lt (by dsimp only; omega) ?_
  rw [wp_store]
  split
  case isFalse hin =>
    rw [List.length_singleton] at hin
    dsimp only at hin
    omega
  case isTrue hin =>
    rw [List.length_singleton] at hin
    dsimp only at hin
    refine ⟨by omega, hb', ?_, ?_⟩
    · have hstored := hspace.stored
      rw [show (text ++ ascii "] ").length = text.length + 2 by simp [ascii]] at hstored
      exact (slice_splice_of_disjoint (Or.inl (by omega))).trans hstored
    · have hbehind : b'.memory (text.length + 2) = b.memory (text.length + 2) :=
        h.beyond _ (by simp [ascii])
      split
      case isTrue hzero =>
        subst hzero
        simp [splice]
      case isFalse hzero =>
        refine (splice_of_lt (by omega)).trans ?_
        refine (splice_of_ge (by simp [ascii])).trans ?_
        exact (splice_of_ge (by simp [ascii])).trans hbehind

/-- The part of a renderer behind the allocation prints the text and stores a zero, which stays in
the buffer or not. -/
theorem storeSd_closes (hne : sds ≠ []) (h : ∀ sd ∈ sds, Printable sd)
    (hsize : (sdText sds).length < b.size) :
    wp (fun _ => ¬(sdText sds).length + last < b.size) (storeSd last sds)
      (fun _ b' => Closed last (sdText sds).length (sdText sds) b b') b := by
  have hitems := prints_storeItems h
  have hn := length_sdText hne
  rw [flatMap_items hne] at hitems hn
  have htext : sdText sds =
      ascii "[" ++ (ascii " ").intercalate (sds.map sdItem) ++ ascii "] " := rfl
  generalize (ascii " ").intercalate (sds.map sdItem) = items at hitems hn htext
  have hopen : (ascii "[").length = 1 := rfl
  have hend : (ascii "[" ++ items).length = (items ++ ascii " ").length := by
    simp [ascii]
  unfold storeSd
  rw [wp_bind]
  refine wp_assertInside_of_lt (by omega) ?_
  rw [wp_bind]
  refine wp_store_of_le (by omega) ?_
  have hw : Wrote 0 (ascii "[") b { b with memory := splice b.memory 0 (ascii "[") } := wrote_splice
  generalize { b with memory := splice b.memory 0 (ascii "[") } = b₁ at hw ⊢
  rw [wp_bind]
  refine wp_assertInside_of_lt (by rw [hw.size]; omega) ?_
  obtain ⟨c, b₂, hrun, rfl, hw₂⟩ := wp_returns (hitems 1 b₁ (by rw [hw.size]; omega))
  have hw₂ := hw.append hw₂
  rw [wp_bind, wp_iff_of_ok hrun, Nat.add_comm 1, ← hend, htext]
  rw [← List.append_assoc] at hw₂
  have hlength : (ascii "[" ++ items ++ ascii "] ").length = (ascii "[" ++ items).length + 2 := by
    simp [ascii]
  rw [hlength]
  exact closeSd_closes hw₂ (by omega)

/-- Without a pair the bracket that closes the text takes the place of the one that opens it. -/
theorem storeSd_nil : wp (fun _ => True) (storeSd last []) (fun _ b' => b'.memory 0 = 93) b := by
  simp [storeSd, closeSd, storeItems, wp_store, wp_assertInside, splice, ascii]

theorem storeSd_overflow (h : ¬∀ sd ∈ sds, Printable sd) :
    wp (fun _ => True) (storeSd last sds) (fun _ _ => False) b := by
  unfold storeSd
  rw [wp_bind]
  refine wp_intro (fun _ _ _ => ?_) fun _ _ => trivial
  rw [wp_bind]
  refine wp_intro (fun _ _ _ => ?_) fun _ _ => trivial
  rw [wp_bind]
  refine wp_intro (fun _ _ _ => ?_) fun _ _ => trivial
  rw [wp_bind]
  exact wp_mono (storeItems_overflow h) fun _ _ => False.elim

/-- The text is shown exactly when there is a pair, every pair can be printed, and the last zero is
where it belongs or was there before. -/
theorem storeSd_shows_iff (hsize : sds ≠ [] → (sdText sds).length < b.size) :
    wp (fun _ => False) (storeSd last sds) (fun _ b' => Shows (sdText sds) b' .buffer) b ↔
      sds ≠ [] ∧ (∀ sd ∈ sds, Printable sd) ∧
        (last ≠ 0 → (sdText sds).length + last < b.size ∧ b.memory (sdText sds).length = 0) := by
  constructor
  · intro h
    obtain ⟨_, b', hrun, hsize', hslice, -, hzero⟩ := wp_returns h
    have hne : sds ≠ [] := by
      rintro rfl
      have hnil : wp (fun _ => True) (storeSd last []) (fun _ b' => b'.memory 0 = 93) b :=
        storeSd_nil
      have hopen := wp_ok hnil hrun
      have hfirst := congrArg (List.take 1) hslice
      rw [slice_take (by decide)] at hfirst
      simp [slice, sdText, ascii, hopen] at hfirst
    have hprintable : ∀ sd ∈ sds, Printable sd := by
      by_contra hp
      exact wp_ok (storeSd_overflow hp) hrun
    refine ⟨hne, hprintable, fun hlast => ?_⟩
    obtain ⟨hin, -, -, hbyte⟩ := wp_ok (storeSd_closes hne hprintable (hsize hne)) hrun
    rw [if_neg hlast] at hbyte
    exact ⟨hin, hbyte.symm.trans hzero⟩
  · rintro ⟨hne, hprintable, hzero⟩
    have hcloses : wp (fun _ => ¬(sdText sds).length + last < b.size) (storeSd last sds)
        (fun _ b' => Closed last (sdText sds).length (sdText sds) b b') b :=
      storeSd_closes hne hprintable (hsize hne)
    have hin : (sdText sds).length + last < b.size := by
      by_cases hlast : last = 0
      · rw [hlast]
        exact hsize hne
      · exact (hzero hlast).1
    refine wp_intro (fun _ b' hrun => ?_) fun _ hrun => wp_error hcloses hrun hin
    obtain ⟨-, hsize', hslice, hbyte⟩ := wp_ok hcloses hrun
    refine ⟨hsize' ▸ hsize hne, hslice, zero_not_mem_sdText hne, hbyte.trans ?_⟩
    split
    case isTrue => rfl
    case isFalse hlast => exact (hzero hlast).2

theorem size_of_grow {len n : ℕ} (h : b.grow len n realloc = some b') (hn : len ≤ n) :
    len ≤ b'.size := by
  unfold SdBuffer.grow at h
  split_ifs at h with hsmall
  · obtain ⟨fresh, -, rfl⟩ := Option.map_eq_some_iff.mp h
    exact hn
  · obtain rfl := Option.some.inj h
    exact Nat.le_of_not_lt hsmall

theorem renders_expandSd_iff
    (hroom : ∀ sd, (cString sd.name).length + (cString sd.value).length + 4 ≤ room sd)
    (halloc : ∀ len, len ≤ alloc len) :
    Renders (expandSd room alloc last realloc (some sds)) sds b ↔
      Sound room alloc last realloc sds b := by
  unfold Renders expandSd Sound
  rw [wp_bind, wp_get]
  cases hgrow : b.grow (sdLen room sds) (alloc (sdLen room sds)) realloc with
  | none => exact eq_comm
  | some b' =>
    have hsize := size_of_grow hgrow (halloc _)
    dsimp only
    rw [wp_bind, wp_set, wp_bind]
    exact storeSd_shows_iff fun hne => lt_of_lt_of_le (length_sdText_lt hne hroom) hsize

/-- Both renderers show the text of a list, in buffers of any size and content. -/
theorem expandSd_agree_iff {sds : List LogSd} {b₁ b₂ : SdBuffer}
    {realloc₁ realloc₂ : Option (ℕ → UInt8)} :
    (Renders (logrecordExpandSd realloc₁ (some sds)) sds b₁ ∧
      Renders (logFileExpandSd realloc₂ (some sds)) sds b₂) ↔
    Sound (fun sd => (cString sd.name).length + 2 + (cString sd.value).length + 2) id 1 realloc₁
        sds b₁ ∧
      Sound (fun sd => (cString sd.name).length + 1 + (cString sd.value).length + 2 + 1)
        (fun len => if len < 256 then 256 else len) 0 realloc₂ sds b₂ := by
  refine and_congr (renders_expandSd_iff (fun sd => ?_) fun len => le_rfl)
    (renders_expandSd_iff (fun sd => ?_) fun len => ?_)
  · omega
  · omega
  · split_ifs <;> omega

end Renderers

section Examples

attribute [local irreducible] wp

/-- In a fresh buffer the text of a quoted pair leaves no room for a zero that is a byte too far. -/
theorem not_expandSd_agree_all :
    ¬∀ (sds : List LogSd) (b₁ b₂ : SdBuffer) (fresh₁ fresh₂ : ℕ → UInt8),
      Renders (logrecordExpandSd (some fresh₁) (some sds)) sds b₁ ∧
        Renders (logFileExpandSd (some fresh₂) (some sds)) sds b₂ := by
  intro h
  have hpair := (h [⟨ascii "name", ascii "a value"⟩] ⟨0, fun _ => 0⟩ ⟨0, fun _ => 0⟩ (fun _ => 0)
    fun _ => 0).1
  have hfault : faultOf (logrecordExpandSd (some fun _ => 0)
      (some [⟨ascii "name", ascii "a value"⟩]) ⟨0, fun _ => 0⟩) = some .outside := by
    decide +kernel
  unfold Renders at hpair
  exact wp_fault hpair hfault

end Examples

end Log

end FrameTransporter
