import Mathlib.Data.List.Nodup

/-! # Histories of a stack

A history lists what has taken effect on a stack that threads share, the latest event
first. It is legal if each pop takes what was on top, and each call that returns a node
returns the one that its pop took.
-/

namespace Histories

variable {T α : Type*}

/-- An event of a thread. The call of a pop returns after the pop has taken effect. -/
inductive Event (T α : Type*)
  | push (t : T) (a : α)
  | pop (t : T) (a : α)
  | ret (t : T) (r : Option α)

namespace Event

def thread : Event T α → T
  | push t _ => t
  | pop t _ => t
  | ret t _ => t

end Event

/-- The stack after a history, the top first. -/
def contents : List (Event T α) → List α
  | [] => []
  | .push _ a :: es => a :: contents es
  | .pop _ _ :: es => (contents es).tail
  | .ret _ _ :: es => contents es

/-- The last pop of a thread took `a`, and nothing of the thread has taken effect since. -/
def Took (t : T) (a : α) (es : List (Event T α)) : Prop :=
  ∃ fs gs, es = fs ++ .pop t a :: gs ∧ ∀ e ∈ fs, e.thread ≠ t

/-- What is pushed is not on the stack, what is popped is on top, and a thread returns what it
popped. -/
inductive Legal : List (Event T α) → Prop
  | nil : Legal []
  | push {t : T} {a : α} {es : List (Event T α)} (h : Legal es) (ha : a ∉ contents es) :
    Legal (.push t a :: es)
  | pop {t : T} {a : α} {es : List (Event T α)} (h : Legal es)
    (ha : (contents es).head? = some a) : Legal (.pop t a :: es)
  | ret {t : T} {r : Option α} {es : List (Event T α)} (h : Legal es)
    (hr : ∀ a, r = some a → Took t a es) : Legal (.ret t r :: es)

/-- A push of `a` has taken effect, and no pop has taken it since. -/
def Outstanding (es : List (Event T α)) (a : α) : Prop :=
  ∃ fs t gs, es = fs ++ .push t a :: gs ∧ ∀ t', .pop t' a ∉ fs

section Contents

variable {es fs gs : List (Event T α)} {e : Event T α} {t t' : T} {a b : α} {r : Option α}

@[simp] theorem contents_nil : contents ([] : List (Event T α)) = [] := rfl

@[simp] theorem contents_push : contents (.push t a :: es) = a :: contents es := rfl

@[simp] theorem contents_pop : contents (.pop t a :: es) = (contents es).tail := rfl

@[simp] theorem contents_ret : contents (.ret t r :: es) = contents es := rfl

theorem Legal.pop_eq (ha : (contents es).head? = some a) :
    contents es = a :: contents (.pop t a :: es) := by
  rw [contents_pop]
  exact (List.cons_head?_tail ha).symm

theorem Legal.tail (h : Legal (e :: es)) : Legal es := by
  cases h with
  | push h _ => exact h
  | pop h _ => exact h
  | ret h _ => exact h

theorem Legal.suffix (h : Legal (es ++ fs)) : Legal fs := by
  induction es with
  | nil => exact h
  | cons e es ih => exact ih h.tail

theorem Legal.nodup (h : Legal es) : (contents es).Nodup := by
  induction h with
  | nil => exact .nil
  | push _ ha ih => exact List.nodup_cons.mpr ⟨ha, ih⟩
  | pop _ _ ih => exact ih.tail
  | ret _ _ ih => exact ih

theorem not_outstanding_nil : ¬Outstanding ([] : List (Event T α)) a := by
  rintro ⟨fs, t, gs, h, -⟩
  simp at h

/-- An event that is no push of `a`, and no pop of it either, leaves it where it is. -/
theorem outstanding_cons (hpush : ∀ t, e ≠ .push t a) (hpop : ∀ t, e ≠ .pop t a) :
    Outstanding (e :: es) a ↔ Outstanding es a := by
  constructor
  · rintro ⟨fs, t, gs, h, hf⟩
    cases fs with
    | nil => exact absurd (List.cons.inj h).1 (hpush t)
    | cons f fs =>
      obtain ⟨-, rfl⟩ := List.cons.inj h
      exact ⟨fs, t, gs, rfl, fun t' ht' => hf t' (List.mem_cons_of_mem _ ht')⟩
  · rintro ⟨fs, t, gs, rfl, hf⟩
    refine ⟨e :: fs, t, gs, rfl, fun t' ht' => ?_⟩
    rcases List.mem_cons.mp ht' with he | ht'
    · exact hpop t' he.symm
    · exact hf t' ht'

theorem outstanding_push : Outstanding (.push t a :: es) a :=
  ⟨[], t, es, rfl, fun _ => List.not_mem_nil⟩

theorem not_outstanding_pop : ¬Outstanding (.pop t a :: es) a := by
  rintro ⟨fs, t', gs, h, hf⟩
  cases fs with
  | nil => cases (List.cons.inj h).1
  | cons f fs =>
    obtain ⟨rfl, -⟩ := List.cons.inj h
    exact hf t List.mem_cons_self

/-- The stack contains what was pushed and not popped since. -/
theorem Legal.mem_contents (h : Legal es) : a ∈ contents es ↔ Outstanding es a := by
  induction h with
  | nil => exact iff_of_false List.not_mem_nil not_outstanding_nil
  | @push t b es h hb ih =>
    rw [contents_push, List.mem_cons]
    by_cases hab : a = b
    · subst hab
      exact iff_of_true (.inl rfl) outstanding_push
    · rw [outstanding_cons (by rintro t' ⟨⟩; exact hab rfl) (by rintro t' ⟨⟩), ← ih]
      exact or_iff_right hab
  | @pop t b es h hb ih =>
    have heq := Legal.pop_eq (t := t) hb
    by_cases hab : a = b
    · subst hab
      have hn := h.nodup
      rw [heq] at hn
      exact iff_of_false (List.nodup_cons.mp hn).1 not_outstanding_pop
    · rw [outstanding_cons (by rintro t' ⟨⟩) (by rintro t' ⟨⟩; exact hab rfl), ← ih, heq,
        List.mem_cons]
      exact (or_iff_right hab).symm
  | @ret t r es h hr ih =>
    rw [contents_ret, ih, outstanding_cons (by rintro t' ⟨⟩) (by rintro t' ⟨⟩)]

/-- What comes onto the stack was pushed. -/
theorem push_mem (ha : a ∉ contents fs) (hb : a ∈ contents (es ++ fs)) : ∃ t, .push t a ∈ es := by
  induction es with
  | nil => exact absurd hb ha
  | cons e es ih =>
    have hcons : a ∈ contents (es ++ fs) → ∃ t, .push t a ∈ e :: es := fun h =>
      (ih h).imp fun _ ht => List.mem_cons_of_mem _ ht
    cases e with
    | push t b =>
      rcases List.mem_cons.mp hb with rfl | hb
      · exact ⟨t, List.mem_cons_self⟩
      · exact hcons hb
    | pop t b => exact hcons (List.mem_of_mem_tail hb)
    | ret t r => exact hcons hb

/-- Between two pops of the same it was pushed. -/
theorem Legal.push_between (h : Legal (.pop t a :: es ++ .pop t' a :: fs)) :
    ∃ t'', .push t'' a ∈ es := by
  cases h with
  | pop h ha =>
    have hfirst : Legal (.pop t' a :: fs) := h.suffix
    refine push_mem ?_ (List.mem_of_head? ha)
    rw [hfirst.mem_contents]
    exact not_outstanding_pop

/-- A thread returns what its last pop took from the top. -/
theorem Legal.returns (h : Legal (.ret t (some a) :: es)) : Took t a es := by
  cases h with
  | ret _ hr => exact hr a rfl

theorem Legal.pop_top (h : Legal (.pop t a :: es)) : (contents es).head? = some a := by
  cases h with
  | pop _ ha => exact ha

theorem took_pop : Took t a (.pop t a :: es) := ⟨[], es, rfl, by rintro _ ⟨⟩⟩

theorem Took.append (h : Took t a es) (hf : ∀ e ∈ fs, e.thread ≠ t) : Took t a (fs ++ es) := by
  obtain ⟨gs, hs, rfl, hg⟩ := h
  refine ⟨fs ++ gs, hs, (List.append_assoc fs gs _).symm, fun e he => ?_⟩
  exact (List.mem_append.mp he).elim (hf e) (hg e)

end Contents

end Histories
