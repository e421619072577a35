import Mathlib.Data.List.Basic

/-! # Lines of a text

A text is read line by line into a buffer of a fixed size, and a line that does not fit
comes in several pieces. What the pieces of a text have is what the blocks of its lines
have, if neither the marker at the end of a line nor an empty line matters.
-/

namespace Texts

section Blocks

variable {α : Type*} {n : ℕ} {l r : List α}

/-- A line in blocks of `n` elements, the last of which may be shorter. -/
def blocks (n : ℕ) (l : List α) : List (List α) :=
  if _h : n = 0 ∨ l = [] then [] else l.take n :: blocks n (l.drop n)
termination_by l.length
decreasing_by
  obtain ⟨hn, hl⟩ := not_or.mp _h
  have hpos := List.length_pos_iff.mpr hl
  rw [List.length_drop]
  omega

@[simp] theorem blocks_nil : blocks n ([] : List α) = [] := by
  rw [blocks, dif_pos (.inr rfl)]

/-- A line that fits is one block. -/
theorem blocks_of_le (hn : n ≠ 0) (hl : l ≠ []) (hlen : l.length ≤ n) : blocks n l = [l] := by
  rw [blocks, dif_neg (by simp [hn, hl]), List.take_of_length_le hlen, List.drop_of_length_le hlen,
    blocks_nil]

theorem blocks_append (hn : n ≠ 0) (hl : l.length = n) : blocks n (l ++ r) = l :: blocks n r := by
  have hne : l ++ r ≠ [] := by
    intro h
    have hlen := congrArg List.length h
    rw [List.length_append, List.length_nil] at hlen
    omega
  rw [blocks, dif_neg (by simp only [hn, hne, or_self, not_false_eq_true]), ← hl,
    List.take_left, List.drop_left]

end Blocks

variable {α β : Type*} [DecidableEq α] {nl a : α} {n : ℕ} {l r p text : List α}

/-- What one read takes from a text, at most `n` elements and none behind a marker, and what
remains. -/
def getLine (nl : α) : ℕ → List α → List α × List α
  | 0, text => ([], text)
  | _ + 1, [] => ([], [])
  | n + 1, a :: text =>
    if a = nl then ([a], text)
    else (a :: (getLine nl n text).1, (getLine nl n text).2)

theorem getLine_append (nl : α) (n : ℕ) (text : List α) :
    (getLine nl n text).1 ++ (getLine nl n text).2 = text := by
  fun_induction getLine nl n text with
  | case1 text => rfl
  | case2 n => rfl
  | case3 n text => rfl
  | case4 n a text ha ih => rw [List.cons_append, ih]

theorem length_getLine (nl : α) (n : ℕ) (text : List α) : (getLine nl n text).1.length ≤ n := by
  fun_induction getLine nl n text with
  | case1 text => exact Nat.le_refl 0
  | case2 n => exact Nat.zero_le _
  | case3 n text => exact Nat.le_add_left 1 n
  | case4 n a text ha ih => exact Nat.succ_le_succ ih

/-- A read ends with a marker, or with a full buffer or the end of the text. -/
theorem getLine_ends (nl : α) (n : ℕ) (text : List α) :
    (∃ p, (getLine nl n text).1 = p ++ [nl] ∧ nl ∉ p) ∨
      nl ∉ (getLine nl n text).1 ∧
        ((getLine nl n text).1.length = n ∨ (getLine nl n text).2 = []) := by
  fun_induction getLine nl n text with
  | case1 text => exact .inr ⟨List.not_mem_nil, .inl rfl⟩
  | case2 n => exact .inr ⟨List.not_mem_nil, .inr rfl⟩
  | case3 n text => exact .inl ⟨[], rfl, List.not_mem_nil⟩
  | case4 n a text ha ih =>
    rcases ih with ⟨p, hp, hnl⟩ | ⟨hnl, hend⟩
    · refine .inl ⟨a :: p, ?_, ?_⟩
      · rw [hp, List.cons_append]
      · exact fun hm => (List.mem_cons.mp hm).elim (fun he => ha he.symm) hnl
    · refine .inr ⟨?_, ?_⟩
      · exact fun hm => (List.mem_cons.mp hm).elim (fun he => ha he.symm) hnl
      · exact hend.imp (fun hlen => congrArg (· + 1) hlen) id

theorem getLine_fst_ne_nil (hn : n ≠ 0) (ht : text ≠ []) : (getLine nl n text).1 ≠ [] := by
  cases n with
  | zero => exact absurd rfl hn
  | succ n =>
    cases text with
    | nil => exact absurd rfl ht
    | cons a text =>
      rw [getLine]
      split <;> exact List.cons_ne_nil _ _

theorem length_getLine_lt (hn : n ≠ 0) (ht : text ≠ []) :
    (getLine nl n text).2.length < text.length := by
  have happ := congrArg List.length (getLine_append nl n text)
  have hne : (getLine nl n text).1 ≠ [] := getLine_fst_ne_nil hn ht
  have hpos := List.length_pos_iff.mpr hne
  rw [List.length_append] at happ
  omega

/-- The reads of a whole text. -/
def getLines (nl : α) (n : ℕ) (text : List α) : List (List α) :=
  if _h : n = 0 ∨ text = [] then []
  else (getLine nl n text).1 :: getLines nl n (getLine nl n text).2
termination_by text.length
decreasing_by
  obtain ⟨hn, ht⟩ := not_or.mp _h
  exact length_getLine_lt hn ht

theorem getLine_line (hl : nl ∉ l) (hn : l.length < n) (r : List α) :
    getLine nl n (l ++ nl :: r) = (l ++ [nl], r) := by
  induction l generalizing n with
  | nil =>
    obtain ⟨n, rfl⟩ := Nat.exists_eq_add_of_lt hn
    rw [List.nil_append, getLine, if_pos rfl, List.nil_append]
  | cons a l ih =>
    obtain ⟨ha, hl⟩ := not_or.mp (List.mem_cons.not.mp hl)
    cases n with
    | zero => exact absurd hn (Nat.not_lt_zero _)
    | succ n =>
      rw [List.cons_append, getLine, if_neg fun he => ha he.symm, ih hl (Nat.lt_of_succ_lt_succ hn),
        List.cons_append]

theorem getLine_last (hl : nl ∉ l) (hn : l.length ≤ n) : getLine nl n l = (l, []) := by
  induction l generalizing n with
  | nil => cases n <;> rfl
  | cons a l ih =>
    obtain ⟨ha, hl⟩ := not_or.mp (List.mem_cons.not.mp hl)
    cases n with
    | zero => exact absurd hn (Nat.not_succ_le_zero _)
    | succ n => rw [getLine, if_neg fun he => ha he.symm, ih hl (Nat.le_of_succ_le_succ hn)]

/-- The text has these lines. The last one may lack its marker, if it is not empty. -/
inductive IsText (nl : α) : List (List α) → List α → Prop
  | nil : IsText nl [] []
  | last {l : List α} : l ≠ [] → nl ∉ l → IsText nl [l] l
  | line {l text : List α} {ls : List (List α)} : nl ∉ l → IsText nl ls text →
      IsText nl (l :: ls) (l ++ nl :: text)

omit [DecidableEq α] in
theorem IsText.subset {ls : List (List α)} (h : IsText nl ls text) (hl : l ∈ ls) : l ⊆ text := by
  induction h with
  | nil => cases hl
  | last _ _ => exact List.mem_singleton.mp hl ▸ List.Subset.refl l
  | @line m text ls _ _ ih =>
    rcases List.mem_cons.mp hl with rfl | hl
    · exact List.subset_append_left l _
    · refine List.Subset.trans (ih hl) ?_
      exact List.subset_append_of_subset_right m (List.subset_cons_self nl text)

/-- The reads of a text whose lines fit are its lines, with or without the marker. -/
theorem IsText.getLines {ls : List (List α)} (h : IsText nl ls text) (hn : ∀ l ∈ ls, l.length < n) :
    List.Forall₂ (fun l p => p = l ∨ p = l ++ [nl]) ls (getLines nl n text) := by
  induction h with
  | nil =>
    rw [Texts.getLines, dif_pos (.inr rfl)]
    exact .nil
  | @last l hne hl =>
    have hlen := hn l (List.mem_singleton_self l)
    rw [Texts.getLines, dif_neg (by simp only [hne, or_false]; omega),
      getLine_last hl (Nat.le_of_lt hlen), Texts.getLines, dif_pos (.inr rfl)]
    exact .cons (.inl rfl) .nil
  | @line l text ls hl _ ih =>
    have hlen := hn l List.mem_cons_self
    have hne : l ++ nl :: text ≠ [] := List.append_ne_nil_of_right_ne_nil _ (List.cons_ne_nil _ _)
    rw [Texts.getLines, dif_neg (by simp only [hne, or_false]; omega), getLine_line hl hlen]
    exact .cons (.inr rfl) (ih fun l hl => hn l (List.mem_cons_of_mem _ hl))

/-- What precedes the first marker belongs to the first line. -/
theorem splitOn_append (h : nl ∉ l) (r : List α) :
    (l ++ r).splitOn nl = (r.splitOn nl).modifyHead (l ++ ·) := by
  induction l with
  | nil => exact (congrFun List.modifyHead_id (r.splitOn nl)).symm
  | cons a l ih =>
    obtain ⟨ha, hl⟩ := not_or.mp (List.mem_cons.not.mp h)
    have hne : (a == nl) = false := beq_false_of_ne fun he => ha he.symm
    rw [List.cons_append, List.splitOn_cons_eq_if_modifyHead, hne, ih hl]
    simp [Function.comp_def]

/-- Nothing is read that is not in the text. -/
theorem mem_getLines (hl : l ∈ getLines nl n text) (ha : a ∈ l) : a ∈ text := by
  fun_induction getLines nl n text with
  | case1 text h => cases hl
  | case2 text h ih =>
    rw [← getLine_append nl n text]
    rcases List.mem_cons.mp hl with rfl | hl
    · exact List.mem_append_left _ ha
    · exact List.mem_append_right _ (ih hl)

/-- The pieces of a text have what the blocks of its lines have. -/
theorem flatMap_getLines (f : List α → List β) (hn : n ≠ 0) (hnil : f [] = [])
    (hnl : ∀ p, f (p ++ [nl]) = f p) (text : List α) :
    (getLines nl n text).flatMap f =
      (text.splitOn nl).flatMap fun l => (blocks n l).flatMap f := by
  fun_induction getLines nl n text with
  | case1 text h =>
    obtain rfl := h.resolve_left hn
    simp
  | case2 text h ih =>
    have hlen := length_getLine nl n text
    have happ := getLine_append nl n text
    have hends := getLine_ends nl n text
    rw [List.flatMap_cons, ih]
    generalize (getLine nl n text).1 = l at *
    generalize (getLine nl n text).2 = r at *
    subst happ
    rcases hends with ⟨p, rfl, hp⟩ | ⟨hl, hend⟩
    · -- the line ends here
      have hsplit : (p ++ [nl] ++ r).splitOn nl = p :: r.splitOn nl := by
        rw [List.append_assoc, List.singleton_append,
          List.splitOn_append_cons_self_of_not_mem hp]
      have hpiece : (blocks n p).flatMap f = f p := by
        rw [List.length_append] at hlen
        by_cases hpnil : p = []
        · rw [hpnil, blocks_nil, hnil, List.flatMap_nil]
        · rw [blocks_of_le hn hpnil (by omega), List.flatMap_singleton]
      rw [hsplit, List.flatMap_cons, hpiece, hnl]
    · obtain ⟨q, qs, hq⟩ := List.exists_cons_of_ne_nil (List.splitOn_ne_nil nl r)
      rw [splitOn_append hl, hq, List.modifyHead_cons, List.flatMap_cons, List.flatMap_cons,
        ← List.append_assoc]
      congr 1
      rcases hend with hfull | rfl
      · -- the line goes on
        rw [blocks_append hn hfull, List.flatMap_cons]
      · -- the text ends without a marker
        rw [List.splitOn_nil] at hq
        obtain ⟨rfl, -⟩ := List.cons.inj hq
        rw [List.append_nil, blocks_nil, List.flatMap_nil, List.append_nil]
        have hne : l ≠ [] := by
          rintro rfl
          exact h (.inr rfl)
        rw [blocks_of_le hn hne hlen, List.flatMap_singleton]

end Texts
