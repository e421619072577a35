import FrameTransporter.Cols.Load
import FrameTransporter.Log.Record

/-! # Configuration files

The parser reads a file line by line and hands each pair of a name and a value to a
handler, with the section that the line is in. It does not stop at an error but
remembers the first line that has one. A file of sections, pairs, further values,
comments and wrong lines is parsed as it was meant, however spaces are placed.
-/

namespace FrameTransporter.Ini

open Texts Log IpHashMap

-- where the bytes are known to be a finite type, a quantifier would else run over all of them
local instance (priority := high) decidableForallMem (p : UInt8 → Prop) [DecidablePred p]
    (l : List UInt8) : Decidable (∀ c ∈ l, p c) := List.decidableBAll p l

local instance (priority := high) decidableForallMemOption (p : UInt8 → Prop) [DecidablePred p]
    (o : Option UInt8) : Decidable (∀ c ∈ o, p c) := Option.decidableForallMem o

/-- `MAX_SECTION`. -/
def MAX_SECTION : ℕ := 50

/-- `MAX_NAME`. -/
def MAX_NAME : ℕ := 50

/-- `INI_MAX_LINE`. -/
def INI_MAX_LINE : ℕ := 200

/-- `INI_INLINE_COMMENT_PREFIXES`. -/
def INI_INLINE_COMMENT_PREFIXES : List UInt8 := [59]

/-- The bytes that may precede the first line. -/
def BOM : List UInt8 := [0xEF, 0xBB, 0xBF]

/-- `rstrip`. -/
def rstrip (s : List UInt8) : List UInt8 := s.rdropWhile isspace

/-- `lskip`. -/
def lskip (s : List UInt8) : List UInt8 := s.dropWhile isspace

/-- The loop of `find_chars_or_comment`: what precedes the character that is found, and the rest. -/
def findLoop (chars : List UInt8) : Bool → List UInt8 → List UInt8 × List UInt8
  | _, [] => ([], [])
  | wasSpace, c :: s =>
    if c ∉ chars ∧ ¬(wasSpace ∧ c ∈ INI_INLINE_COMMENT_PREFIXES) then
      (c :: (findLoop chars (isspace c) s).1, (findLoop chars (isspace c) s).2)
    else ([], c :: s)

/-- `find_chars_or_comment`. -/
def findCharsOrComment (s chars : List UInt8) : List UInt8 × List UInt8 := findLoop chars false s

/-- `strncpy0`. -/
def strncpy0 (size : ℕ) (src : List UInt8) : List UInt8 := src.take (size - 1)

/-- What the handler is called with. -/
structure Entry where
  sectionName : List UInt8
  name : List UInt8
  value : List UInt8
deriving DecidableEq

variable {σ : Type}

/-- The variables of `ini_parse_stream` and what the handler works on. -/
structure Parser (σ : Type) where
  sectionName : List UInt8
  prevName : List UInt8
  lineno : ℤ
  error : ℤ
  user : σ

variable (handler : σ → Entry → Bool × σ)

namespace Parser

/-- The current line is wrong. -/
def fail (s : Parser σ) : Parser σ := if s.error = 0 then { s with error := s.lineno } else s

/-- Call the handler. -/
def call (s : Parser σ) (e : Entry) : Parser σ :=
  let r := handler s.user e
  let s := { s with user := r.2 }
  if r.1 then s else s.fail

/-- What `ini_parse_stream` does with a line that is stripped. Spaces were before it if it is
`moved`. -/
def parseStart (s : Parser σ) (moved : Bool) (start : List UInt8) : Parser σ :=
  match start with
  | [] => s
  | c :: rest =>
    if c = 59 ∨ c = 35 then s
    else if s.prevName ≠ [] ∧ moved then s.call handler ⟨s.sectionName, s.prevName, c :: rest⟩
    else if c = 91 then
      let found := findCharsOrComment rest [93]
      if found.2.head? = some 93 then
        { s with sectionName := strncpy0 MAX_SECTION found.1, prevName := [] }
      else s.fail
    else
      let found := findCharsOrComment (c :: rest) [61, 58]
      if found.2.head? = some 61 ∨ found.2.head? = some 58 then
        let name := rstrip found.1
        let value := rstrip (findCharsOrComment (lskip (found.2.drop 1)) []).1
        { s with prevName := strncpy0 MAX_NAME name }.call handler ⟨s.sectionName, name, value⟩
      else s.fail

/-- The loop body of `ini_parse_stream` behind the count of the line. -/
def parseLine (s : Parser σ) (line : List UInt8) : Parser σ :=
  let line := cString line
  let bom := s.lineno = 1 ∧ BOM <+: line
  let line := rstrip (if bom then line.drop 3 else line)
  s.parseStart handler (bom ∨ lskip line ≠ line) (lskip line)

/-- The loop body of `ini_parse_stream`. -/
def readLine (s : Parser σ) (line : List UInt8) : Option (Parser σ) :=
  (addInt s.lineno 1).map fun lineno => { s with lineno }.parseLine handler line

end Parser

/-- `ini_parse_stream`, with the lines that the reader returns: the first line with an error and
what the handler works on. -/
def parseStream (lines : List (List UInt8)) (user : σ) : Option (ℤ × σ) :=
  (lines.foldlM (Parser.readLine handler) ⟨[], [], 0, 0, user⟩).map fun s => (s.error, s.user)

/-- `ini_parse_file`. -/
def parseFile (text : List UInt8) (user : σ) : Option (ℤ × σ) :=
  parseStream handler (fgets INI_MAX_LINE text) user

/-- `ini_parse`, with the text of the file, if it can be opened. -/
def parse (file : Option (List UInt8)) (user : σ) : Option (ℤ × σ) :=
  match file with
  | none => some (-1, user)
  | some text => parseFile handler text user

/-! ### What a file means -/

/-- What a line of a file is. -/
inductive Item
  | blank
  | comment
  | header (name : List UInt8)
  | pair (name value : List UInt8)
  | more (value : List UInt8)
  | wrong

/-- The section and the last name of it, as the next lines see them. -/
structure Heading where
  sectionName : List UInt8
  name : List UInt8

/-- The pair that an item gives. -/
def Item.entry (h : Heading) : Item → Option Entry
  | pair name value => some ⟨h.sectionName, name, value⟩
  | more value => some ⟨h.sectionName, h.name, value⟩
  | _ => none

/-- What the lines behind an item see. -/
def Item.heading (h : Heading) : Item → Heading
  | header name => ⟨name.take 49, []⟩
  | pair name _ => ⟨h.sectionName, name.take 49⟩
  | _ => h

/-- Whether an item is accepted, and what the handler makes of it. -/
def Item.handled (h : Heading) (user : σ) (i : Item) : Bool × σ :=
  match i, i.entry h with
  | wrong, _ => (false, user)
  | _, some e => handler user e
  | _, none => (true, user)

/-- Which items are accepted, when each pair goes to the handler, and what it makes of them. -/
def reports : Heading → σ → List Item → List Bool × σ
  | _, user, [] => ([], user)
  | h, user, i :: is =>
    let r := i.handled handler h user
    let rs := reports (i.heading h) r.2 is
    (r.1 :: rs.1, rs.2)

/-- The number of the first line that is not accepted, counted from one. -/
def firstError (oks : List Bool) : ℤ := if false ∈ oks then oks.idxOf false + 1 else 0

/-- A text of spaces. -/
def Spaces (l : List UInt8) : Prop := ∀ c ∈ l, isspace c = true

/-- A text with no space at its ends. -/
def Trimmed (l : List UInt8) : Prop :=
  (∀ c ∈ l.head?, isspace c = false) ∧ ∀ c ∈ l.getLast?, isspace c = false

/-- A text without some characters and without a comment. -/
def Plain (chars l : List UInt8) : Prop :=
  (∀ c ∈ l, c ∉ chars) ∧ l.IsChain fun c d => isspace c → d ≠ 59

instance (l : List UInt8) : Decidable (Spaces l) :=
  inferInstanceAs (Decidable (∀ c ∈ l, isspace c = true))

instance (l : List UInt8) : Decidable (Trimmed l) :=
  inferInstanceAs (Decidable ((∀ c ∈ l.head?, _) ∧ ∀ c ∈ l.getLast?, _))

instance (chars l : List UInt8) : Decidable (Plain chars l) :=
  inferInstanceAs (Decidable ((∀ c ∈ l, c ∉ chars) ∧ l.IsChain _))

/-- A comment at the end of a line, behind some text and spaces. -/
inductive Comment : List UInt8 → Prop
  | none {a : List UInt8} : Spaces a → Comment a
  | some {a l : List UInt8} : Spaces a → a ≠ [] → Comment (a ++ 59 :: l)

/-- The spaces before a line. Behind a name they would make the line a further value. -/
def Lead (named : Bool) (l : List UInt8) : Prop := Spaces l ∧ (named → l = [])

instance (named : Bool) (l : List UInt8) : Decidable (Lead named l) :=
  inferInstanceAs (Decidable (Spaces l ∧ (named → l = [])))

/-- The ways to write an item. -/
inductive Renders (named : Bool) : Item → List UInt8 → Prop
  | blank {a} : Spaces a → Renders named .blank a
  | comment {a c l} : Spaces a → c = 59 ∨ c = 35 → Renders named .comment (a ++ c :: l)
  | header {a name l} : Lead named a → Plain [93] name →
      Renders named (.header name) (a ++ 91 :: name ++ 93 :: l)
  | pair {a name b sep c value d} : Lead named a → Trimmed name → Plain [61, 58] name →
      (∀ c ∈ name.head?, c ≠ 91 ∧ c ≠ 59 ∧ c ≠ 35) → Spaces b → (name = [] → b = []) →
      sep = 61 ∨ sep = 58 → Spaces c → Trimmed value → Plain [] value → Comment d →
      (value = [] → Spaces d) →
      Renders named (.pair name value) (a ++ name ++ b ++ sep :: c ++ value ++ d)
  | more {a value b} : named → Spaces a → a ≠ [] → Trimmed value → value ≠ [] →
      (∀ c ∈ value.head?, c ≠ 59 ∧ c ≠ 35) → Spaces b →
      Renders named (.more value) (a ++ value ++ b)
  | unclosed {a name d} : Lead named a → Plain [93] name → Comment d →
      Renders named .wrong (a ++ 91 :: name ++ d)
  | bare {a name d} : Lead named a → Trimmed name → name ≠ [] → Plain [61, 58] name →
      (∀ c ∈ name.head?, c ≠ 91 ∧ c ≠ 59 ∧ c ≠ 35) → Comment d →
      Renders named .wrong (a ++ name ++ d)

/-- Whether a name precedes the lines behind an item. -/
def Item.named (named : Bool) : Item → Bool
  | header _ => false
  | pair name _ => name ≠ []
  | _ => named

/-- A first line without the bytes that may precede it. -/
def skipBom (line : List UInt8) : List UInt8 := if BOM <+: line then line.drop 3 else line

/-- The ways to write a file, as its lines. -/
inductive Document : Bool → List Item → List (List UInt8) → Prop
  | nil {named} : Document named [] []
  | cons {named i is l ls} : Renders named i l → Document (i.named named) is ls →
      Document named (i :: is) (l :: ls)

section Strip

variable {a b l r chars : List UInt8} {c : UInt8} {w : Bool}

theorem Spaces.append (ha : Spaces a) (hb : Spaces b) : Spaces (a ++ b) := by
  intro c hc
  exact (List.mem_append.mp hc).elim (ha c) (hb c)

theorem rstrip_append (h : Spaces b) (l : List UInt8) : rstrip (l ++ b) = rstrip l := by
  induction b using List.reverseRecOn with
  | nil => rw [List.append_nil]
  | append_singleton b c ih =>
    have hc : isspace c = true := h c (List.mem_append_right _ (List.mem_singleton_self c))
    rw [← List.append_assoc, rstrip, List.rdropWhile_concat_pos _ _ _ hc]
    exact ih fun d hd => h d (List.mem_append_left _ hd)

theorem rstrip_eq (h : ∀ c ∈ l.getLast?, isspace c = false) : rstrip l = l := by
  rw [rstrip, List.rdropWhile_eq_self_iff]
  intro hl
  rw [h _ (List.getLast?_eq_some_getLast hl), Bool.false_eq_true, not_false_iff]
  trivial

theorem rstrip_append_cons (h : isspace c = false) (l r : List UInt8) :
    rstrip (l ++ c :: r) = l ++ c :: rstrip r := by
  induction r using List.reverseRecOn with
  | nil =>
    have hnil : rstrip [] = [] := rfl
    rw [hnil]
    refine rstrip_eq fun d hd => ?_
    rw [List.getLast?_append_cons, List.getLast?_singleton, Option.mem_some_iff] at hd
    exact hd ▸ h
  | append_singleton r d ih =>
    rw [← List.cons_append, ← List.append_assoc]
    cases hd : isspace d with
    | true =>
      have hs : Spaces [d] := fun e he => List.mem_singleton.mp he ▸ hd
      rw [rstrip_append hs, rstrip_append hs, ih]
    | false =>
      have hlast : ∀ p : List UInt8, rstrip (p ++ [d]) = p ++ [d] := fun p =>
        rstrip_eq fun e he => by
          rw [List.getLast?_concat, Option.mem_some_iff] at he
          exact he ▸ hd
      rw [hlast, hlast, List.append_assoc, List.cons_append]

theorem lskip_append (h : Spaces a) (l : List UInt8) : lskip (a ++ l) = lskip l := by
  rw [lskip, List.dropWhile_append, List.dropWhile_eq_nil_iff.mpr h]
  rfl

theorem lskip_eq (h : ∀ c ∈ l.head?, isspace c = false) : lskip l = l := by
  cases l with
  | nil => rfl
  | cons c l =>
    have hc : ¬isspace c = true := by simp [h c rfl]
    exact List.dropWhile_cons_of_neg hc

theorem strip_spaces (h : Spaces a) : lskip (rstrip a) = [] := by
  have hr := rstrip_append h []
  rw [List.nil_append] at hr
  rw [hr]
  rfl

/-- A search stops behind a plain text, at one of the characters or at a comment. -/
theorem findLoop_plain (h : Plain chars l) (hw : w = true → ∀ c ∈ l.head?, c ≠ 59)
    (hr : ∀ c ∈ r.head?, c ∈ chars ∨ c = 59 ∧ (l.getLast?.map isspace).getD w = true) :
    findLoop chars w (l ++ r) = (l, r) := by
  induction l generalizing w with
  | nil =>
    cases r with
    | nil => rfl
    | cons c r =>
      rw [List.nil_append, findLoop, if_neg]
      rintro ⟨hc, hcomment⟩
      rcases hr c rfl with hmem | ⟨rfl, hspace⟩
      · exact hc hmem
      · exact hcomment ⟨hspace, List.mem_singleton_self _⟩
  | cons c l ih =>
    obtain ⟨hmem, hchain⟩ := h
    have hplain : Plain chars l := ⟨fun d hd => hmem d (List.mem_cons_of_mem _ hd), hchain.tail⟩
    have hnext : isspace c = true → ∀ d ∈ l.head?, d ≠ 59 := by
      intro hc d hd
      cases l with
      | nil => cases hd
      | cons e l =>
        obtain rfl := Option.some.inj hd
        exact (List.isChain_cons_cons.mp hchain).1 hc
    have hlast : (l.getLast?.map isspace).getD (isspace c) =
        ((c :: l).getLast?.map isspace).getD w := by
      cases l with
      | nil => rfl
      | cons d l =>
        rw [List.getLast?_cons_cons, List.getLast?_eq_some_getLast (List.cons_ne_nil d l)]
        rfl
    rw [List.cons_append, findLoop, if_pos, ih hplain hnext (by rwa [hlast])]
    refine ⟨hmem c List.mem_cons_self, ?_⟩
    rintro ⟨hwc, hc⟩
    exact hw hwc c rfl (List.mem_singleton.mp hc)

theorem find_plain (h : Plain chars l)
    (hr : ∀ c ∈ r.head?, c ∈ chars ∨ c = 59 ∧ (l.getLast?.map isspace).getD false = true) :
    findCharsOrComment (l ++ r) chars = (l, r) :=
  findLoop_plain h (by rintro ⟨⟩) hr

theorem rstrip_cons (h : isspace c = false) (l : List UInt8) : rstrip (c :: l) = c :: rstrip l :=
  rstrip_append_cons h [] l

theorem strip_append (h : Spaces a) (l : List UInt8) :
    lskip (rstrip (a ++ l)) = lskip (rstrip l) := by
  induction l using List.reverseRecOn with
  | nil =>
    rw [List.append_nil, strip_spaces h]
    rfl
  | append_singleton l d ih =>
    cases hd : isspace d with
    | true =>
      have hs : Spaces [d] := fun e he => List.mem_singleton.mp he ▸ hd
      rw [← List.append_assoc, rstrip_append hs, rstrip_append hs, ih]
    | false =>
      rw [← List.append_assoc, rstrip_append_cons hd, rstrip_append_cons hd, List.append_assoc,
        lskip_append h]

theorem strip_cons (h : isspace c = false) (l : List UInt8) :
    lskip (rstrip (c :: l)) = c :: rstrip l := by
  rw [rstrip_cons h]
  exact lskip_eq fun d hd => Option.some.inj hd ▸ h

/-- A plain text is one also without the spaces at its end. -/
theorem Plain.rstrip (h : Plain chars l) : Plain chars (rstrip l) := by
  obtain ⟨t, ht⟩ : Ini.rstrip l <+: l := List.rdropWhile_prefix isspace l
  refine ⟨fun c hc => h.1 c ?_, ?_⟩
  · exact ht ▸ List.mem_append_left t hc
  · have hchain := h.2
    rw [← ht] at hchain
    exact hchain.left_of_append

theorem Plain.append (h : Plain chars l) (hchars : ∀ c ∈ chars, isspace c = false)
    (ha : Spaces a) : Plain chars (l ++ a) := by
  have hne : ∀ d ∈ a, d ≠ 59 := by
    rintro d hd rfl
    cases ha 59 hd
  constructor
  · intro c hc hmem
    rcases List.mem_append.mp hc with hl | hs
    · exact h.1 c hl hmem
    · exact Bool.false_ne_true ((hchars c hmem).symm.trans (ha c hs))
  · refine List.isChain_append.mpr ⟨h.2, ?_, fun c _ d hd _ => ?_⟩
    · have hpair : a.Pairwise fun c d => isspace c → d ≠ 59 :=
        List.pairwise_of_forall_mem_list fun c _ d hd _ => hne d hd
      exact hpair.isChain
    · exact hne d (List.mem_of_mem_head? hd)

/-- A search in a plain text with a comment behind it. -/
theorem find_comment {d : List UInt8} (h : Plain chars l) (hchars : ∀ c ∈ chars, isspace c = false)
    (hd : Comment d) :
    ∃ e r, findCharsOrComment (rstrip (l ++ d)) chars = (e, r) ∧ (∀ c ∈ r.head?, c = 59) ∧
      rstrip e = rstrip l := by
  cases hd with
  | none ha =>
    refine ⟨rstrip l, [], ?_, by rintro c ⟨⟩, ?_⟩
    · rw [rstrip_append ha]
      have hfind := find_plain (r := []) h.rstrip (by rintro c ⟨⟩)
      rwa [List.append_nil] at hfind
    · exact List.rdropWhile_idempotent isspace l
  | @some a r ha hne =>
    refine ⟨l ++ a, 59 :: rstrip r, ?_, ?_, rstrip_append ha l⟩
    · rw [← List.append_assoc, rstrip_append_cons (by decide)]
      refine find_plain (h.append hchars ha) fun c hc => .inr ?_
      have hlast : isspace (a.getLast hne) = true := ha _ (List.getLast_mem hne)
      rw [List.getLast?_append_of_ne_nil _ hne, List.getLast?_eq_some_getLast hne]
      exact ⟨(Option.some.inj hc).symm, hlast⟩
    · exact fun c hc => (Option.some.inj hc).symm

end Strip

namespace Parser

/-- What the next line sees of a parser. -/
def heading (s : Parser σ) : Heading := ⟨s.sectionName, s.prevName⟩

/-- The parser after a line that is an item. -/
def after (s : Parser σ) (i : Item) : Parser σ :=
  let r := i.handled handler s.heading s.user
  let h := i.heading s.heading
  let s' : Parser σ := { s with sectionName := h.sectionName, prevName := h.name, user := r.2 }
  if r.1 then s' else s'.fail

variable {handler} {s : Parser σ} {moved named : Bool} {i : Item}
  {a b c d l name value : List UInt8} {sep : UInt8}

theorem parseStart_comment {c : UInt8} (hc : c = 59 ∨ c = 35) :
    s.parseStart handler moved (c :: l) = s.after handler .comment := by
  rw [parseStart, if_pos hc]
  rfl

theorem parseStart_more (hmoved : moved = true) (hname : s.prevName ≠ []) (hne : value ≠ [])
    (hc : ∀ c ∈ value.head?, c ≠ 59 ∧ c ≠ 35) :
    s.parseStart handler moved value = s.after handler (.more value) := by
  cases value with
  | nil => exact absurd rfl hne
  | cons c value =>
    rw [parseStart, if_neg (not_or.mpr (hc c rfl)), if_pos ⟨hname, hmoved⟩]
    rfl

theorem parseStart_header (hmoved : ¬(s.prevName ≠ [] ∧ moved = true)) (hp : Plain [93] name) :
    s.parseStart handler moved (91 :: (name ++ 93 :: l)) = s.after handler (.header name) := by
  have hfind : findCharsOrComment (name ++ 93 :: l) [93] = (name, 93 :: l) :=
    find_plain hp fun c hc => .inl (List.mem_singleton.mpr (Option.some.inj hc).symm)
  rw [parseStart, if_neg (by decide), if_neg hmoved, if_pos rfl, hfind]
  rfl

theorem parseStart_unclosed (hmoved : ¬(s.prevName ≠ [] ∧ moved = true)) (hp : Plain [93] name)
    (hd : Comment d) :
    s.parseStart handler moved (91 :: rstrip (name ++ d)) = s.after handler .wrong := by
  obtain ⟨e, r, hfind, hr, -⟩ := find_comment hp (by decide) hd
  have hhead : r.head? ≠ some 93 := fun h => absurd (hr 93 h) (by decide)
  rw [parseStart, if_neg (by decide), if_neg hmoved, if_pos rfl, hfind]
  simp only [hhead, if_false]
  rfl

/-- The start of a name or a value. -/
theorem exists_cons (ht : Trimmed name) (hne : name ≠ []) :
    ∃ c l, name = c :: l ∧ isspace c = false := by
  obtain ⟨c, l, rfl⟩ := List.exists_cons_of_ne_nil hne
  exact ⟨c, l, rfl, ht.1 c rfl⟩

theorem parseStart_bare (hmoved : ¬(s.prevName ≠ [] ∧ moved = true)) (ht : Trimmed name)
    (hne : name ≠ []) (hp : Plain [61, 58] name)
    (hc : ∀ c ∈ name.head?, c ≠ 91 ∧ c ≠ 59 ∧ c ≠ 35) (hd : Comment d) :
    s.parseStart handler moved (rstrip (name ++ d)) = s.after handler .wrong := by
  obtain ⟨e, r, hfind, hr, -⟩ := find_comment hp (by decide) hd
  obtain ⟨c, l, rfl, hcs⟩ := exists_cons ht hne
  obtain ⟨hsection, hcomment⟩ := hc c rfl
  have hhead : ¬(r.head? = some 61 ∨ r.head? = some 58) := by
    rintro (h | h)
    · exact absurd (hr _ h) (by decide)
    · exact absurd (hr _ h) (by decide)
  rw [List.cons_append, rstrip_cons hcs] at hfind ⊢
  rw [parseStart, if_neg (not_or.mpr hcomment), if_neg hmoved, if_neg hsection, hfind]
  simp only [hhead, if_false]
  rfl

/-- The value is what is between the spaces and the comment. -/
theorem value_eq (hc : Spaces c) (ht : Trimmed value) (hp : Plain [] value) (hd : Comment d)
    (hnil : value = [] → Spaces d) :
    rstrip (findCharsOrComment (lskip (rstrip (c ++ (value ++ d)))) []).1 = value := by
  rw [strip_append hc]
  by_cases hne : value = []
  · rw [hne, List.nil_append, strip_spaces (hnil hne)]
    rfl
  · obtain ⟨e, r, hfind, -, he⟩ := find_comment hp (by simp) hd
    obtain ⟨x, l, rfl, hx⟩ := exists_cons ht hne
    rw [List.cons_append, rstrip_cons hx] at hfind
    rw [List.cons_append, strip_cons hx, hfind, he]
    exact rstrip_eq ht.2

theorem parseStart_pair (hmoved : ¬(s.prevName ≠ [] ∧ moved = true)) (ht : Trimmed name)
    (hp : Plain [61, 58] name) (hname : ∀ c ∈ name.head?, c ≠ 91 ∧ c ≠ 59 ∧ c ≠ 35)
    (hb : Spaces b) (hnil : name = [] → b = []) (hsep : sep = 61 ∨ sep = 58)
    (hvalue : rstrip (findCharsOrComment (lskip l) []).1 = value) :
    s.parseStart handler moved (name ++ b ++ sep :: l) = s.after handler (.pair name value) := by
  have hfind : findCharsOrComment (name ++ b ++ sep :: l) [61, 58] = (name ++ b, sep :: l) := by
    refine find_plain (hp.append (by decide) hb) fun c hc => .inl ?_
    obtain rfl := Option.some.inj hc
    simpa using hsep
  have hstrip : rstrip (name ++ b) = name := by rw [rstrip_append hb, rstrip_eq ht.2]
  -- the line starts with the name or, without one, with the separator
  have hstart : ∃ c r, name ++ b ++ sep :: l = c :: r ∧ c ≠ 91 ∧ c ≠ 59 ∧ c ≠ 35 := by
    by_cases hne : name = []
    · rw [hne, hnil hne]
      refine ⟨sep, l, rfl, ?_⟩
      rcases hsep with rfl | rfl <;> decide
    · obtain ⟨c, r, rfl⟩ := List.exists_cons_of_ne_nil hne
      exact ⟨c, r ++ b ++ sep :: l, rfl, hname c rfl⟩
  obtain ⟨c, r, hcr, hsection, hcomment⟩ := hstart
  have hhead : some sep = some (61 : UInt8) ∨ some sep = some 58 :=
    hsep.imp (congrArg some) (congrArg some)
  rw [hcr] at hfind ⊢
  rw [parseStart, if_neg (not_or.mpr hcomment), if_neg hmoved, if_neg hsection, hfind]
  simp only [List.head?_cons, hhead, if_true, List.drop_succ_cons, List.drop_zero, hstrip, hvalue]
  rfl

/-- A line at the start of which nothing may be skipped was not moved. -/
theorem not_moved {c : UInt8} (hlead : Lead named a) (hcs : isspace c = false)
    (hnamed : s.prevName ≠ [] → named = true)
    (hmoved : moved = true → s.prevName ≠ [] →
      lskip (rstrip (a ++ c :: l)) ≠ rstrip (a ++ c :: l)) :
    ¬(s.prevName ≠ [] ∧ moved = true) := by
  rintro ⟨hname, hm⟩
  refine hmoved hm hname ?_
  rw [hlead.2 (hnamed hname), List.nil_append, strip_cons hcs, rstrip_cons hcs]

/-- A rendered line is parsed as the item. -/
theorem parseStart_of_renders (h : Renders named i l) (hnamed : named = true ↔ s.prevName ≠ [])
    (hmoved : moved = true → s.prevName ≠ [] → lskip (rstrip l) ≠ rstrip l)
    (hskip : lskip (rstrip l) ≠ rstrip l → moved = true) :
    s.parseStart handler moved (lskip (rstrip l)) = s.after handler i := by
  cases h with
  | blank ha =>
    rw [strip_spaces ha]
    rfl
  | @comment a c l ha hc =>
    have hcs : isspace c = false := by rcases hc with rfl | rfl <;> rfl
    rw [strip_append ha, strip_cons hcs]
    exact parseStart_comment hc
  | @header a name l ha hp =>
    have h91 : isspace 91 = false := rfl
    rw [List.append_assoc, List.cons_append] at hmoved ⊢
    have hm := not_moved ha h91 hnamed.mpr hmoved
    rw [strip_append ha.1, strip_cons h91, rstrip_append_cons (by decide)]
    exact parseStart_header hm hp
  | @pair a name b sep c value d ha ht hp hc hb hnil hsep hcs htv hpv hd hspaces =>
    have hsp : isspace sep = false := by rcases hsep with rfl | rfl <;> rfl
    have hvalue := value_eq hcs htv hpv hd hspaces
    have hassoc : a ++ name ++ b ++ sep :: c ++ value ++ d =
        a ++ (name ++ b ++ sep :: (c ++ (value ++ d))) := by simp
    rw [hassoc] at hmoved ⊢
    have hm : ¬(s.prevName ≠ [] ∧ moved = true) := by
      by_cases hne : name = []
      · rw [hne, hnil hne] at hmoved
        exact not_moved ha hsp hnamed.mpr hmoved
      · obtain ⟨x, r, rfl, hx⟩ := exists_cons ht hne
        exact not_moved ha hx hnamed.mpr hmoved
    have hstart : lskip (rstrip (name ++ b ++ sep :: (c ++ (value ++ d)))) =
        name ++ b ++ sep :: rstrip (c ++ (value ++ d)) := by
      rw [rstrip_append_cons hsp]
      refine lskip_eq fun x hx => ?_
      by_cases hne : name = []
      · rw [hne, hnil hne] at hx
        exact Option.some.inj hx ▸ hsp
      · obtain ⟨y, r, rfl, hy⟩ := exists_cons ht hne
        exact Option.some.inj hx ▸ hy
    rw [strip_append ha.1, hstart]
    exact parseStart_pair hm ht hp hc hb hnil hsep hvalue
  | @more a value b hn ha hne ht hvalue hc hb =>
    have hr : rstrip (a ++ value ++ b) = a ++ value := by
      rw [rstrip_append hb]
      refine rstrip_eq fun c hc => ht.2 c ?_
      rwa [List.getLast?_append_of_ne_nil _ hvalue] at hc
    have hl : lskip (a ++ value) = value := by rw [lskip_append ha, lskip_eq ht.1]
    have hm : moved = true := by
      refine hskip ?_
      rw [hr, hl]
      intro he
      have hlen := congrArg List.length he
      have hpos := List.length_pos_iff.mpr hne
      rw [List.length_append] at hlen
      omega
    rw [hr, hl]
    exact parseStart_more hm (hnamed.mp hn) hvalue hc
  | @unclosed a name d ha hp hd =>
    have h91 : isspace 91 = false := rfl
    rw [List.append_assoc, List.cons_append] at hmoved ⊢
    have hm := not_moved ha h91 hnamed.mpr hmoved
    rw [strip_append ha.1, strip_cons h91]
    exact parseStart_unclosed hm hp hd
  | @bare a name d ha ht hne hp hc hd =>
    rw [List.append_assoc] at hmoved ⊢
    have hm : ¬(s.prevName ≠ [] ∧ moved = true) := by
      obtain ⟨x, r, rfl, hx⟩ := exists_cons ht hne
      exact not_moved ha hx hnamed.mpr hmoved
    have hstart : lskip (rstrip (name ++ d)) = rstrip (name ++ d) := by
      obtain ⟨x, r, rfl, hx⟩ := exists_cons ht hne
      rw [List.cons_append, strip_cons hx, rstrip_cons hx]
    rw [strip_append ha.1, hstart]
    exact parseStart_bare hm ht hne hp hc hd

theorem BOM_prefix_newline : BOM <+: l ++ [10] ↔ BOM <+: l := by
  constructor
  · intro h
    rcases List.prefix_concat_iff.mp h with he | hp
    · have hlast := congrArg List.getLast? he
      rw [List.getLast?_concat] at hlast
      exact absurd hlast (by decide)
    · exact hp
  · exact fun h => h.trans (List.prefix_append l [10])

/-- The end of a line does not matter. -/
theorem parseLine_newline (h0 : 0 ∉ l) :
    s.parseLine handler (l ++ [10]) = s.parseLine handler l := by
  have h10 : Spaces [10] := fun c hc => List.mem_singleton.mp hc ▸ rfl
  have hc : 0 ∉ l ++ [10] := by simpa using h0
  have hstrip : rstrip (if s.lineno = 1 ∧ BOM <+: l then (l ++ [10]).drop 3 else l ++ [10]) =
      rstrip (if s.lineno = 1 ∧ BOM <+: l then l.drop 3 else l) := by
    split
    · next h =>
      have hlen : 3 ≤ l.length := h.2.length_le
      rw [List.drop_append_of_le_length hlen, rstrip_append h10]
    · exact rstrip_append h10 l
  rw [parseLine, parseLine, cString_of_not_mem h0, cString_of_not_mem hc]
  simp only [BOM_prefix_newline, hstrip]

/-- The lines of a file are its items, the first one after the bytes that may precede it. -/
theorem parseLine_of_renders (h : Renders named i (if s.lineno = 1 then skipBom l else l))
    (hnamed : named = true ↔ s.prevName ≠ []) (hfirst : s.lineno = 1 → s.prevName = [])
    (h0 : 0 ∉ l) : s.parseLine handler l = s.after handler i := by
  have hline : (if s.lineno = 1 ∧ BOM <+: l then l.drop 3 else l) =
      if s.lineno = 1 then skipBom l else l := by
    by_cases h1 : s.lineno = 1
    · simp only [h1, true_and, if_true, skipBom]
    · simp only [h1, false_and, if_false]
  rw [parseLine, cString_of_not_mem h0]
  simp only [hline]
  refine parseStart_of_renders h hnamed (fun hmoved hname => ?_) fun hskip => ?_
  · have h1 : s.lineno ≠ 1 := fun h1 => hname (hfirst h1)
    simpa [h1] using hmoved
  · exact decide_eq_true (.inr hskip)

theorem readLine_of_renders (handler : σ → Entry → Bool × σ) {p : List UInt8}
    (h : Renders named i (if s.lineno = 0 then skipBom l else l))
    (hnamed : named = true ↔ s.prevName ≠ []) (hfirst : s.lineno = 0 → s.prevName = [])
    (h0 : 0 ∉ l) (hp : p = l ∨ p = l ++ [10]) (hmin : 0 ≤ s.lineno) (hmax : s.lineno < INT_MAX) :
    s.readLine handler p = some ({ s with lineno := s.lineno + 1 }.after handler i) := by
  have hadd : addInt s.lineno 1 = some (s.lineno + 1) := by
    rw [addInt, if_pos]
    exact ⟨by omega, by omega⟩
  have h1 : s.lineno + 1 = 1 ↔ s.lineno = 0 := by omega
  have hl : ({ s with lineno := s.lineno + 1 } : Parser σ).parseLine handler p =
      ({ s with lineno := s.lineno + 1 } : Parser σ).parseLine handler l := by
    rcases hp with rfl | rfl
    · rfl
    · exact parseLine_newline h0
  rw [readLine, hadd, Option.map_some, hl]
  congr 1
  refine parseLine_of_renders ?_ hnamed (fun hn => hfirst (h1.mp hn)) h0
  simpa only [h1] using h

/-! ### What an item does to a parser -/

@[simp] theorem fail_section : (s.fail).sectionName = s.sectionName := by rw [fail]; split <;> rfl

@[simp] theorem fail_prevName : (s.fail).prevName = s.prevName := by rw [fail]; split <;> rfl

@[simp] theorem fail_lineno : (s.fail).lineno = s.lineno := by rw [fail]; split <;> rfl

@[simp] theorem fail_user : (s.fail).user = s.user := by rw [fail]; split <;> rfl

theorem fail_error : (s.fail).error = if s.error = 0 then s.lineno else s.error := by
  rw [fail]
  split <;> rfl

theorem after_heading : (s.after handler i).heading = i.heading s.heading := by
  rw [after]
  split <;> simp [heading]

theorem after_lineno : (s.after handler i).lineno = s.lineno := by
  rw [after]
  split <;> simp

theorem after_user : (s.after handler i).user = (i.handled handler s.heading s.user).2 := by
  rw [after]
  split <;> simp

theorem after_error : (s.after handler i).error =
    if (i.handled handler s.heading s.user).1 = true ∨ s.error ≠ 0 then s.error
    else s.lineno := by
  rw [after]
  split
  · next h => rw [if_pos (.inl h)]
  · next h =>
    rw [fail_error]
    by_cases he : s.error = 0
    · rw [if_pos he, if_neg (not_or.mpr ⟨h, not_not.mpr he⟩)]
    · rw [if_neg he, if_pos (.inr he)]

theorem named_iff (handler : σ → Entry → Bool × σ) (hnamed : named = true ↔ s.prevName ≠ []) :
    i.named named = true ↔ (s.after handler i).prevName ≠ [] := by
  have hname : (s.after handler i).prevName = (i.heading s.heading).name :=
    congrArg Heading.name after_heading
  rw [hname]
  cases i with
  | pair name value =>
    rw [Item.named, decide_eq_true_iff, Item.heading]
    simp
  | header name => simp [Item.named, Item.heading]
  | blank => exact hnamed
  | comment => exact hnamed
  | more value => exact hnamed
  | wrong => exact hnamed

/-- The first line with an error, behind some lines. -/
def errorOf (lineno error : ℤ) (oks : List Bool) : ℤ :=
  if error = 0 ∧ false ∈ oks then lineno + 1 + oks.idxOf false else error

theorem errorOf_cons {lineno : ℤ} (error : ℤ) (ok : Bool) (oks : List Bool) (h : 0 ≤ lineno) :
    errorOf lineno error (ok :: oks) =
      errorOf (lineno + 1) (if ok = true ∨ error ≠ 0 then error else lineno + 1) oks := by
  by_cases he : error = 0
  · cases ok with
    | true =>
      by_cases hmem : false ∈ oks
      · simp [errorOf, he, hmem]
        ring
      · simp [errorOf, he, hmem]
    | false =>
      have hne : lineno + 1 ≠ 0 := by omega
      simp [errorOf, he, hne]
  · simp [errorOf, he]

/-- The pieces of a file behind its first line. -/
theorem foldlM_of_document {is : List Item} {ls ps : List (List UInt8)}
    (hdoc : Document named is ls)
    (hps : List.Forall₂ (fun l p => p = l ∨ p = l ++ [10]) ls ps) (h0 : ∀ l ∈ ls, 0 ∉ l)
    (hnamed : named = true ↔ s.prevName ≠ []) (hmin : 0 < s.lineno)
    (hmax : s.lineno + is.length ≤ INT_MAX) :
    ∃ s', ps.foldlM (readLine handler) s = some s' ∧
      s'.user = (reports handler s.heading s.user is).2 ∧
      s'.error = errorOf s.lineno s.error (reports handler s.heading s.user is).1 := by
  induction hdoc generalizing ps s with
  | nil =>
    cases hps
    exact ⟨s, rfl, rfl, by simp [errorOf, reports]⟩
  | @cons named i is l ls hr hdoc ih =>
    obtain ⟨p, ps, rfl⟩ : ∃ p ps', ps = p :: ps' := by
      cases hps
      exact ⟨_, _, rfl⟩
    obtain ⟨hp, hps⟩ := List.forall₂_cons.mp hps
    rw [List.length_cons] at hmax
    push_cast at hmax
    have hne : s.lineno ≠ 0 := by omega
    have hread := readLine_of_renders handler (by rwa [if_neg hne]) hnamed
      (fun h => absurd h hne) (h0 l List.mem_cons_self) hp hmin.le (by omega)
    obtain ⟨t, ht, hheading, hlineno, herr, huser⟩ : ∃ t : Parser σ,
        t = { s with lineno := s.lineno + 1 } ∧ t.heading = s.heading ∧
          t.lineno = s.lineno + 1 ∧ t.error = s.error ∧ t.user = s.user :=
      ⟨_, rfl, rfl, rfl, rfl, rfl⟩
    have hnamed' : named = true ↔ t.prevName ≠ [] := by rwa [ht]
    have hcount : (t.after handler i).lineno = s.lineno + 1 := after_lineno.trans hlineno
    rw [← ht] at hread
    obtain ⟨s', hrun, huser', herror⟩ := ih hps (fun l hl => h0 l (List.mem_cons_of_mem _ hl))
      (named_iff handler hnamed') (by omega) (by omega)
    rw [after_heading, after_user, hheading, huser] at huser' herror
    rw [after_lineno, after_error, hheading, hlineno, herr, huser] at herror
    refine ⟨s', ?_, huser', ?_⟩
    · rw [List.foldlM_cons, hread]
      exact hrun
    · rw [herror, reports, errorOf_cons _ _ _ hmin.le]

end Parser

/-- A file is parsed as it was meant: its pairs go to the handler in their order, each with its
section, and the result is the number of the first line that is wrong or refused, or zero. -/
theorem parseFile_document {handler : σ → Entry → Bool × σ} {text : List UInt8}
    {ls : List (List UInt8)} {is : List Item} (htext : IsText 10 ls text) (h0 : 0 ∉ text)
    (hfit : ∀ l ∈ ls, l.length < 199) (hdoc : Document false is (ls.modifyHead skipBom))
    (hmax : is.length ≤ INT_MAX) (user : σ) :
    parseFile handler text user =
      some (firstError (reports handler ⟨[], []⟩ user is).1,
        (reports handler ⟨[], []⟩ user is).2) := by
  have hps := htext.getLines hfit
  have hlines : fgets INI_MAX_LINE text = getLines 10 199 text := rfl
  have hmem : ∀ l ∈ ls, 0 ∉ l := fun l hl hz => h0 (htext.subset hl hz)
  rw [parseFile, parseStream, hlines]
  generalize getLines 10 199 text = ps at *
  cases ls with
  | nil =>
    cases hps
    cases hdoc
    rfl
  | cons l ls =>
    rw [List.modifyHead_cons] at hdoc
    obtain ⟨p, ps, rfl⟩ : ∃ p ps', ps = p :: ps' := by
      cases hps
      exact ⟨_, _, rfl⟩
    obtain ⟨hp, hps⟩ := List.forall₂_cons.mp hps
    cases hdoc with
    | @cons _ i is _ _ hr hdoc =>
      rw [List.length_cons] at hmax
      push_cast at hmax
      obtain ⟨s, hs⟩ : ∃ s : Parser σ, s = ⟨[], [], 0, 0, user⟩ := ⟨_, rfl⟩
      have hnamed : false = true ↔ s.prevName ≠ [] := by simp [hs]
      have hline : Renders false i (if s.lineno = 0 then skipBom l else l) := by
        rwa [hs, if_pos rfl]
      have hread : s.readLine handler p = some ({ s with lineno := 1 }.after handler i) := by
        have hmin : s.lineno = 0 := by rw [hs]
        have h := Parser.readLine_of_renders handler hline hnamed (fun _ => by rw [hs])
          (hmem l List.mem_cons_self) hp hmin.ge (hmin.trans_lt (by decide))
        rwa [hmin, zero_add] at h
      obtain ⟨t, ht, hheading, hlineno, herr, huser⟩ : ∃ t : Parser σ,
          t = { s with lineno := 1 } ∧ t.heading = ⟨[], []⟩ ∧ t.lineno = 1 ∧ t.error = 0 ∧
            t.user = user := ⟨_, rfl, by rw [hs]; rfl, rfl, by rw [hs], by rw [hs]⟩
      have hnamed' : false = true ↔ t.prevName ≠ [] := by rwa [ht]
      have hcount : (t.after handler i).lineno = 1 := Parser.after_lineno.trans hlineno
      rw [← ht] at hread
      obtain ⟨s', hrun, huser', herror⟩ := Parser.foldlM_of_document hdoc hps
        (fun l hl => hmem l (List.mem_cons_of_mem _ hl)) (Parser.named_iff handler hnamed')
        (by omega) (by omega)
      rw [Parser.after_heading, Parser.after_user, hheading, huser] at huser' herror
      rw [Parser.after_lineno, Parser.after_error, hheading, hlineno, herr, huser] at herror
      have hfirst := Parser.errorOf_cons 0 (i.handled handler ⟨[], []⟩ user).1
        (reports handler (i.heading ⟨[], []⟩) (i.handled handler ⟨[], []⟩ user).2 is).1 (le_refl 0)
      rw [zero_add] at hfirst
      rw [← hfirst] at herror
      rw [← hs, List.foldlM_cons, hread, Option.bind_eq_bind, Option.bind_some, hrun,
        Option.map_some, huser', herror]
      simp [reports, firstError, Parser.errorOf, add_comm]

section Total

variable {chars l p q : List UInt8} {w : Bool}

/-- A search splits the text behind a plain part, unless it ends there. -/
theorem findLoop_spec (h : findLoop chars w l = (p, q)) :
    l = p ++ q ∧ Plain chars p ∧ (w = true → ∀ c ∈ p.head?, c ≠ 59) ∧
      ∀ c ∈ q.head?, c ∈ chars ∨ c = 59 ∧ (p.getLast?.map isspace).getD w = true := by
  induction l generalizing w p q with
  | nil =>
    obtain ⟨rfl, rfl⟩ := Prod.mk.inj h
    exact ⟨rfl, ⟨by rintro c ⟨⟩, .nil⟩, fun _ => by rintro c ⟨⟩, by rintro c ⟨⟩⟩
  | cons c l ih =>
    rw [findLoop] at h
    split at h
    · next hc =>
      obtain ⟨hmem, hcomment⟩ := hc
      obtain ⟨rfl, rfl⟩ := Prod.mk.inj h
      obtain ⟨hl, ⟨hplain, hchain⟩, hhead, hend⟩ := ih (w := isspace c) rfl
      generalize (findLoop chars (isspace c) l).1 = p at *
      generalize (findLoop chars (isspace c) l).2 = q at *
      have hlast : (p.getLast?.map isspace).getD (isspace c) =
          ((c :: p).getLast?.map isspace).getD w := by
        cases p with
        | nil => rfl
        | cons d p =>
          rw [List.getLast?_cons_cons, List.getLast?_eq_some_getLast (List.cons_ne_nil d p)]
          rfl
      refine ⟨by rw [List.cons_append, ← hl], ⟨?_, ?_⟩, ?_, ?_⟩
      · exact List.forall_mem_cons.mpr ⟨hmem, hplain⟩
      · exact List.isChain_cons.mpr ⟨fun d hd hs => hhead hs d hd, hchain⟩
      · rintro hw d hd rfl
        obtain rfl := Option.some.inj hd
        exact hcomment ⟨hw, List.mem_singleton_self _⟩
      · rwa [← hlast]
    · next hc =>
      obtain ⟨rfl, rfl⟩ := Prod.mk.inj h
      refine ⟨rfl, ⟨by rintro d ⟨⟩, .nil⟩, fun _ => by rintro d ⟨⟩, fun d hd => ?_⟩
      obtain rfl := Option.some.inj hd
      by_cases hmem : c ∈ chars
      · exact .inl hmem
      · have hcomment : w = true ∧ c ∈ INI_INLINE_COMMENT_PREFIXES :=
          not_not.mp fun hn => hc ⟨hmem, hn⟩
        exact .inr ⟨List.mem_singleton.mp hcomment.2, hcomment.1⟩

/-- A text is what is left of it and spaces. -/
theorem exists_rstrip (l : List UInt8) :
    ∃ a, l = rstrip l ++ a ∧ Spaces a ∧ ∀ c ∈ (rstrip l).getLast?, isspace c = false := by
  induction l using List.reverseRecOn with
  | nil => exact ⟨[], rfl, by rintro c ⟨⟩, by rintro c ⟨⟩⟩
  | append_singleton l c ih =>
    cases hc : isspace c with
    | true =>
      have hs : Spaces [c] := fun d hd => List.mem_singleton.mp hd ▸ hc
      obtain ⟨a, ha, hsa, hlast⟩ := ih
      rw [rstrip_append hs]
      refine ⟨a ++ [c], ?_, hsa.append hs, hlast⟩
      rw [← List.append_assoc, ← ha]
    | false =>
      have hlast : ∀ d ∈ (l ++ [c]).getLast?, isspace d = false := by
        intro d hd
        rw [List.getLast?_concat, Option.mem_some_iff] at hd
        exact hd ▸ hc
      rw [rstrip_eq hlast]
      exact ⟨[], (List.append_nil _).symm, by rintro d ⟨⟩, hlast⟩

theorem exists_lskip (l : List UInt8) :
    ∃ a, l = a ++ lskip l ∧ Spaces a ∧ ∀ c ∈ (lskip l).head?, isspace c = false := by
  refine ⟨l.takeWhile isspace, List.takeWhile_append_dropWhile.symm, fun c hc => ?_, fun c hc => ?_⟩
  · exact List.mem_takeWhile_imp hc
  · have hnot := List.head?_dropWhile_not isspace l
    rw [show (l.dropWhile isspace).head? = some c from hc] at hnot
    simpa using hnot

/-- What is left of a part is plain, and what follows may be a comment. -/
theorem exists_comment
    (hq : ∀ c ∈ q.head?, c = 59 ∧ (p.getLast?.map isspace).getD false = true) :
    ∃ d, p ++ q = rstrip p ++ d ∧ Comment d ∧ (q = [] → Spaces d) := by
  obtain ⟨a, ha, hs, hlast⟩ := exists_rstrip p
  refine ⟨a ++ q, by rw [← List.append_assoc, ← ha], ?_, ?_⟩
  · cases q with
    | nil =>
      rw [List.append_nil]
      exact .none hs
    | cons c q =>
      obtain ⟨rfl, hspace⟩ := hq c rfl
      refine .some hs fun hnil => ?_
      rw [hnil, List.append_nil] at ha
      rw [← ha] at hlast
      cases hp : p.getLast? with
      | none =>
        rw [hp] at hspace
        cases hspace
      | some c =>
        rw [hp, Option.map_some, Option.getD_some, hlast c hp] at hspace
        cases hspace
  · rintro rfl
    rwa [List.append_nil]

theorem trimmed_rstrip (h : ∀ c ∈ l.head?, isspace c = false) : Trimmed (rstrip l) := by
  obtain ⟨a, ha, -, hlast⟩ := exists_rstrip l
  refine ⟨fun c hc => h c ?_, hlast⟩
  obtain ⟨p, hp⟩ : ∃ p, rstrip l = c :: p := by
    cases hr : rstrip l with
    | nil =>
      rw [hr] at hc
      cases hc
    | cons d p =>
      rw [hr] at hc
      exact ⟨p, by rw [Option.some.inj hc]⟩
  rw [ha, hp]
  rfl

theorem eq_nil_of_rstrip (h : ∀ c ∈ l.head?, isspace c = false) (hnil : rstrip l = []) :
    l = [] := by
  obtain ⟨a, ha, hs, -⟩ := exists_rstrip l
  rw [hnil, List.nil_append] at ha
  cases l with
  | nil => rfl
  | cons c l =>
    have hc := h c rfl
    rw [hs c (ha ▸ List.mem_cons_self)] at hc
    cases hc

/-- Every value can be written: what follows the separator is spaces, a value and a comment. -/
theorem exists_value (l : List UInt8) :
    ∃ c value d, l = c ++ value ++ d ∧ Spaces c ∧ Trimmed value ∧ Plain [] value ∧ Comment d ∧
      (value = [] → Spaces d) := by
  obtain ⟨c, hc, hs, hhead⟩ := exists_lskip l
  obtain ⟨⟨p, q⟩, hpq⟩ : ∃ r, findCharsOrComment (lskip l) [] = r := ⟨_, rfl⟩
  obtain ⟨hl, hp, -, hq⟩ := findLoop_spec hpq
  have hstart : ∀ x ∈ p.head?, isspace x = false := by
    intro x hx
    refine hhead x ?_
    rw [hl]
    cases p with
    | nil => cases hx
    | cons y p => exact hx
  obtain ⟨d, hd, hcomment, hspaces⟩ :=
    exists_comment fun x hx => (hq x hx).resolve_left List.not_mem_nil
  refine ⟨c, rstrip p, d, ?_, hs, trimmed_rstrip hstart, hp.rstrip, hcomment, fun hnil => ?_⟩
  · rw [List.append_assoc, ← hd, ← hl]
    exact hc
  · -- there is no comment without a value
    have hpnil := eq_nil_of_rstrip hstart hnil
    refine hspaces ?_
    cases q with
    | nil => rfl
    | cons x q =>
      rw [hpnil] at hq
      obtain ⟨-, hspace⟩ := (hq x rfl).resolve_left List.not_mem_nil
      cases hspace

/-- Every line is an item. -/
theorem exists_renders (named : Bool) (l : List UInt8) : ∃ i, Renders named i l := by
  obtain ⟨a, ha, hs, hhead⟩ := exists_lskip l
  generalize lskip l = m at *
  subst ha
  cases m with
  | nil => exact ⟨_, .blank (by rwa [List.append_nil])⟩
  | cons c m =>
    have hcs : isspace c = false := hhead c rfl
    by_cases hc : c = 59 ∨ c = 35
    · exact ⟨_, .comment hs hc⟩
    obtain ⟨hc59, hc35⟩ := not_or.mp hc
    by_cases hmore : named = true ∧ a ≠ []
    · obtain ⟨b, hb, hsb, hlast⟩ := exists_rstrip (c :: m)
      have hr : rstrip (c :: m) = c :: rstrip m := rstrip_cons hcs m
      rw [hb, ← List.append_assoc]
      refine ⟨_, .more hmore.1 hs hmore.2 (trimmed_rstrip hhead) ?_ ?_ hsb⟩
      · rw [hr]
        exact List.cons_ne_nil c _
      · rw [hr]
        intro d hd
        obtain rfl := Option.some.inj hd
        exact ⟨hc59, hc35⟩
    have hlead : Lead named a := ⟨hs, fun hn => by_contra fun hne => hmore ⟨hn, hne⟩⟩
    by_cases h91 : c = 91
    · subst h91
      obtain ⟨⟨p, q⟩, hpq⟩ : ∃ r, findCharsOrComment m [93] = r := ⟨_, rfl⟩
      obtain ⟨rfl, hp, -, hq⟩ := findLoop_spec hpq
      by_cases h93 : q.head? = some 93
      · obtain ⟨q, rfl⟩ : ∃ r, q = 93 :: r := by
          cases q with
          | nil => cases h93
          | cons d q => exact ⟨q, by rw [Option.some.inj h93]⟩
        refine ⟨.header p, ?_⟩
        have h := Renders.header (l := q) hlead hp
        rwa [List.append_assoc] at h
      · obtain ⟨d, hd, hcomment, -⟩ := exists_comment fun x hx =>
          (hq x hx).resolve_left fun hmem => h93 (by rw [hx, List.mem_singleton.mp hmem])
        refine ⟨.wrong, ?_⟩
        have h := Renders.unclosed hlead hp.rstrip hcomment
        rwa [List.append_assoc, List.cons_append, ← hd] at h
    · obtain ⟨⟨p, q⟩, hpq⟩ : ∃ r, findCharsOrComment (c :: m) [61, 58] = r := ⟨_, rfl⟩
      obtain ⟨hl, hp, -, hq⟩ := findLoop_spec hpq
      rw [hl] at hhead ⊢
      have hstart : ∀ x ∈ p.head?, isspace x = false ∧ x ≠ 91 ∧ x ≠ 59 ∧ x ≠ 35 := by
        intro x hx
        obtain rfl : x = c := by
          cases p with
          | nil => cases hx
          | cons y p => exact (Option.some.inj hx).symm.trans (List.cons.inj hl).1.symm
        exact ⟨hcs, h91, hc59, hc35⟩
      have hname : ∀ x ∈ (rstrip p).head?, x ≠ 91 ∧ x ≠ 59 ∧ x ≠ 35 := by
        intro x hx
        obtain ⟨b, hb, -⟩ := exists_rstrip p
        refine (hstart x ?_).2
        rw [hb]
        cases hr : rstrip p with
        | nil =>
          rw [hr] at hx
          cases hx
        | cons y r =>
          rw [hr] at hx
          exact hx
      have htrim : Trimmed (rstrip p) := trimmed_rstrip fun x hx => (hstart x hx).1
      by_cases hsep : q.head? = some 61 ∨ q.head? = some 58
      · obtain ⟨sep, q, rfl⟩ : ∃ sep r, q = sep :: r := by
          cases q with
          | nil => rcases hsep with h | h <;> cases h
          | cons d q => exact ⟨d, q, rfl⟩
        obtain ⟨b, hb, hsb, -⟩ := exists_rstrip p
        obtain ⟨e, value, d, rfl, hse, htv, hpv, hcomment, hspaces⟩ := exists_value q
        have hnil : rstrip p = [] → b = [] := by
          intro hnil
          rw [hnil, List.nil_append] at hb
          cases b with
          | nil => rfl
          | cons x b =>
            have hx := (hstart x (by rw [hb]; rfl)).1
            rw [hsb x List.mem_cons_self] at hx
            cases hx
        refine ⟨.pair (rstrip p) value, ?_⟩
        have h := Renders.pair hlead htrim hp.rstrip hname hsb hnil
          (hsep.imp Option.some.inj Option.some.inj) hse htv hpv hcomment hspaces
        generalize rstrip p = name at *
        subst hb
        simpa using h
      · obtain ⟨hne61, hne58⟩ := not_or.mp hsep
        obtain ⟨d, hd, hcomment, -⟩ := exists_comment fun x hx =>
          (hq x hx).resolve_left fun hmem => by
            rcases List.mem_pair.mp hmem with rfl | rfl
            · exact hne61 hx
            · exact hne58 hx
        have hne : rstrip p ≠ [] := by
          intro hnil
          have hpnil := eq_nil_of_rstrip (fun x hx => (hstart x hx).1) hnil
          rw [hpnil, List.nil_append] at hl
          rw [hpnil, ← hl] at hq
          rcases hq c rfl with hmem | ⟨-, hspace⟩
          · rw [← hl] at hne61 hne58
            rcases List.mem_pair.mp hmem with rfl | rfl
            · exact hne61 rfl
            · exact hne58 rfl
          · cases hspace
        refine ⟨.wrong, ?_⟩
        have h := Renders.bare hlead htrim hne hp.rstrip hname hcomment
        rwa [List.append_assoc, ← hd] at h

/-- Every file is a document. -/
theorem exists_document (named : Bool) (ls : List (List UInt8)) : ∃ is, Document named is ls := by
  induction ls generalizing named with
  | nil => exact ⟨[], .nil⟩
  | cons l ls ih =>
    obtain ⟨i, hi⟩ := exists_renders named l
    obtain ⟨is, his⟩ := ih (i.named named)
    exact ⟨i :: is, .cons hi his⟩

end Total

theorem Document.length_eq {named : Bool} {is : List Item} {ls : List (List UInt8)}
    (h : Document named is ls) : is.length = ls.length := by
  induction h with
  | nil => rfl
  | cons _ _ ih => rw [List.length_cons, List.length_cons, ih]

/-- Every file whose lines fit is a document, and however it is read as one, the parser does
what it means. -/
theorem parse_correct (handler : σ → Entry → Bool × σ) {text : List UInt8}
    {ls : List (List UInt8)} (htext : IsText 10 ls text) (h0 : 0 ∉ text)
    (hfit : ∀ l ∈ ls, l.length < 199) (hmax : ls.length ≤ INT_MAX) :
    (∃ is, Document false is (ls.modifyHead skipBom)) ∧
      ∀ is, Document false is (ls.modifyHead skipBom) → ∀ user,
        parse handler (some text) user =
          some (firstError (reports handler ⟨[], []⟩ user is).1,
            (reports handler ⟨[], []⟩ user is).2) := by
  refine ⟨exists_document false _, fun is hdoc user => ?_⟩
  refine parseFile_document htext h0 hfit hdoc ?_ user
  rwa [hdoc.length_eq, List.length_modifyHead]

theorem parse_correct_four_lines :
    parse (fun entries e => (true, entries ++ [e])) (some (ascii "[a]\nb = c ; d\n e\nf\n")) [] =
      some (4, [⟨ascii "a", ascii "b", ascii "c"⟩, ⟨ascii "a", ascii "b", ascii "e"⟩]) := by
  have htext : IsText 10 [ascii "[a]", ascii "b = c ; d", ascii " e", ascii "f"]
      (ascii "[a]\nb = c ; d\n e\nf\n") :=
    .line (l := ascii "[a]") (by decide) (.line (l := ascii "b = c ; d") (by decide)
      (.line (l := ascii " e") (by decide) (.line (l := ascii "f") (by decide) .nil)))
  have ha : Renders false (.header (ascii "a")) ([] ++ 91 :: ascii "a" ++ 93 :: []) :=
    .header (by decide) (by decide)
  have hd : Comment (ascii " " ++ 59 :: ascii " d") := .some (by decide) (by decide)
  have hb : Renders false (.pair (ascii "b") (ascii "c"))
      ([] ++ ascii "b" ++ ascii " " ++ 61 :: ascii " " ++ ascii "c" ++ ascii " ; d") :=
    .pair (by decide) (by decide) (by decide) (by decide) (by decide) (by decide) (by decide)
      (by decide) (by decide) (by decide) hd (by decide)
  have he : Renders true (.more (ascii "e")) (ascii " " ++ ascii "e" ++ []) :=
    .more rfl (by decide) (by decide) (by decide) (by decide) (by decide) (by decide)
  have hf : Renders true .wrong ([] ++ ascii "f" ++ []) :=
    .bare (by decide) (by decide) (by decide) (by decide) (by decide) (.none (by decide))
  have hdoc : Document false [.header (ascii "a"), .pair (ascii "b") (ascii "c"),
      .more (ascii "e"), .wrong] [ascii "[a]", ascii "b = c ; d", ascii " e", ascii "f"] :=
    .cons ha (.cons hb (.cons he (.cons hf .nil)))
  exact (parse_correct _ htext (by decide) (by decide) (by decide)).2 _ hdoc []

end FrameTransporter.Ini
