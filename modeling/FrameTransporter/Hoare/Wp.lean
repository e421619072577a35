import Mathlib.Logic.Basic
import Mathlib.Order.Defs.Unbundled

/-! # Weakest preconditions of stateful programs that can fail

Programs over a state that stop at a fault. A weakest precondition asks for the
postcondition after every normal return and admits the listed faults. The rules
run a program symbolically, one operation at a time, and a relation that every
operation respects is respected by whole programs and by lists of them.
-/

namespace Hoare

variable {σ ε α β : Type}

/-- A program over the state `σ` that returns or stops at a fault. -/
abbrev Prog (σ ε α : Type) := StateT σ (Except ε) α

/-- Normal returns of `m` from `s` satisfy `Q`, and its faults satisfy `E`. -/
def wp (E : ε → Prop) (m : Prog σ ε α) (Q : α → σ → Prop) (s : σ) : Prop :=
  match m s with
  | .ok r => Q r.1 r.2
  | .error e => E e

/-- A statement that runs only under a condition. -/
def when (c : Prop) [Decidable c] (m : Prog σ ε Unit) : Prog σ ε Unit := if c then m else pure ()

section Rules

variable {E : ε → Prop} {m : Prog σ ε α} {k : α → Prog σ ε β} {Q Q' : α → σ → Prop} {s : σ}

@[simp] theorem wp_pure (a : α) : wp E (pure a) Q s ↔ Q a s := Iff.rfl

@[simp] theorem wp_bind {Q : β → σ → Prop} :
    wp E (m >>= k) Q s ↔ wp E m (fun a => wp E (k a) Q) s := by
  change (match (m s >>= fun r => k r.1 r.2 : Except ε (β × σ)) with
    | .ok r => Q r.1 r.2 | .error e => E e) ↔ _
  unfold wp
  cases m s <;> rfl

@[simp] theorem wp_map {f : α → β} {Q : β → σ → Prop} :
    wp E (f <$> m) Q s ↔ wp E m (fun a => Q (f a)) s := by
  change (match (m s >>= fun r => pure (f r.1, r.2) : Except ε (β × σ)) with
    | .ok r => Q r.1 r.2 | .error e => E e) ↔ _
  unfold wp
  cases m s <;> rfl

@[simp] theorem wp_get {Q : σ → σ → Prop} : wp E get Q s ↔ Q s s := Iff.rfl

@[simp] theorem wp_set (t : σ) {Q : PUnit → σ → Prop} : wp E (set t) Q s ↔ Q ⟨⟩ t := Iff.rfl

@[simp] theorem wp_modify (f : σ → σ) {Q : PUnit → σ → Prop} :
    wp E (modify f) Q s ↔ Q ⟨⟩ (f s) := Iff.rfl

@[simp] theorem wp_throw (e : ε) : wp E (throw e : Prog σ ε α) Q s ↔ E e := Iff.rfl

@[simp] theorem wp_liftM_ok (a : α) :
    wp E (liftM (.ok a : Except ε α) : Prog σ ε α) Q s ↔ Q a s := Iff.rfl

@[simp] theorem wp_liftM_error (e : ε) :
    wp E (liftM (.error e : Except ε α) : Prog σ ε α) Q s ↔ E e := Iff.rfl

theorem wp_ite (c : Prop) [Decidable c] (m' : Prog σ ε α) :
    wp E (if c then m else m') Q s ↔ (c → wp E m Q s) ∧ (¬c → wp E m' Q s) := by
  split <;> simp_all

theorem wp_when (c : Prop) [Decidable c] {m : Prog σ ε Unit} {Q : Unit → σ → Prop} :
    wp E (when c m) Q s ↔ (c → wp E m Q s) ∧ (¬c → Q () s) := wp_ite c (pure ())

theorem wp_mono (h : wp E m Q s) (hQ : ∀ a t, Q a t → Q' a t) : wp E m Q' s := by
  unfold wp at *
  split at h <;> simp_all

theorem wp_and (h : wp E m Q s) (h' : wp E m Q' s) : wp E m (fun a t => Q a t ∧ Q' a t) s := by
  unfold wp at *
  split at h <;> simp_all

/-- A fault that two postconditions both admit, and a return that has both. -/
theorem wp_and_both {E' E'' : ε → Prop} (h : wp E m Q s) (h' : wp E' m Q' s)
    (hE : ∀ e, E e → E' e → E'' e) : wp E'' m (fun a t => Q a t ∧ Q' a t) s := by
  unfold wp at *
  split at h <;> simp_all

/-- Part of a postcondition may be proved under a condition on what is known before. -/
theorem wp_and_imp {p : Prop} (h : wp E m Q s) (h' : p → wp E m Q' s) :
    wp E m (fun a t => Q a t ∧ (p → Q' a t)) s := by
  by_cases hp : p
  · exact wp_mono (wp_and h (h' hp)) fun _ _ ha => ⟨ha.1, fun _ => ha.2⟩
  · exact wp_mono h fun _ _ ha => ⟨ha, fun hp' => absurd hp' hp⟩

theorem wp_ok {a : α} {t : σ} (h : wp E m Q s) (hm : m s = .ok (a, t)) : Q a t := by
  simpa [wp, hm] using h

theorem wp_error {e : ε} (h : wp E m Q s) (hm : m s = .error e) : E e := by
  simpa [wp, hm] using h

/-- A run that returns decides the weakest precondition. -/
theorem wp_iff_of_ok {a : α} {t : σ} (hm : m s = .ok (a, t)) : wp E m Q s ↔ Q a t := by
  simp [wp, hm]

theorem bind_of_ok {a : α} {t : σ} (hm : m s = .ok (a, t)) : (m >>= k) s = k a t := by
  change (m s >>= fun r => k r.1 r.2 : Except ε (β × σ)) = k a t
  rw [hm]
  rfl

/-- Without admitted faults there is a return, and it has the postcondition. -/
theorem wp_returns (h : wp (fun _ => False) m Q s) : ∃ a t, m s = .ok (a, t) ∧ Q a t := by
  cases hr : m s with
  | error e => exact (wp_error h hr).elim
  | ok r => exact ⟨r.1, r.2, rfl, wp_ok h hr⟩

/-- A state with the postcondition shows whatever the run of the program shows. -/
theorem wp_observe (h : wp E m Q s) {g : α × σ → β} {b : β}
    (hm : ((m s).map g).toOption = some b) : ∃ a t, Q a t ∧ g (a, t) = b := by
  cases hr : m s with
  | error e => simp [hr, Except.map, Except.toOption] at hm
  | ok r => exact ⟨r.1, r.2, wp_ok h hr, by simpa [hr, Except.map, Except.toOption] using hm⟩

/-- The fault that a run ends with, if it does. -/
def faultOf (r : Except ε α) : Option ε :=
  match r with
  | .ok _ => none
  | .error e => some e

/-- The fault that a run shows is an admitted one. -/
theorem wp_fault (h : wp E m Q s) {e : ε} (hm : faultOf (m s) = some e) : E e := by
  cases hr : m s with
  | ok r => simp [hr, faultOf] at hm
  | error e' =>
    have he : e' = e := by simpa [hr, faultOf] using hm
    exact he ▸ wp_error h hr

/-- A program meets a postcondition when every normal return and every fault does. -/
theorem wp_intro (hok : ∀ a t, m s = .ok (a, t) → Q a t) (herr : ∀ e, m s = .error e → E e) :
    wp E m Q s := by
  unfold wp
  split
  · next r h => exact hok r.1 r.2 h
  · next e h => exact herr e h

/-- An invariant of every program of a list is an invariant of running the list. -/
theorem wp_forM {γ : Type} {I : σ → Prop} {f : γ → Prog σ ε PUnit} :
    ∀ {l : List γ} {s : σ}, (∀ c ∈ l, ∀ s, I s → wp E (f c) (fun _ => I) s) → I s →
      wp E (forM l f) (fun _ => I) s
  | [], _, _, hs => hs
  | c :: l, s, h, hs => by
    rw [List.forM_cons, wp_bind]
    exact wp_mono (h c (by simp) s hs) fun _ _ ht =>
      wp_forM (fun d hd => h d (List.mem_cons_of_mem _ hd)) ht

end Rules

section Preserves

variable {E : ε → Prop} {I : σ → Prop} {R : σ → σ → Prop} {m : Prog σ ε α} {k : α → Prog σ ε β}

/-- From a state with the invariant, every normal return of `m` has it again and is related to
the state that `m` started from. -/
def Preserves (E : ε → Prop) (I : σ → Prop) (R : σ → σ → Prop) (m : Prog σ ε α) : Prop :=
  ∀ s, I s → wp E m (fun _ t => I t ∧ R s t) s

theorem preserves_throw {e : ε} (he : E e) : Preserves E I R (throw e : Prog σ ε α) :=
  fun _ _ => he

/-- After reading the state, the rest may use that it is the current one. -/
theorem preserves_get_bind {k : σ → Prog σ ε β}
    (hk : ∀ s, I s → wp E (k s) (fun _ t => I t ∧ R s t) s) : Preserves E I R (get >>= k) := hk

theorem Preserves.ite {m' : Prog σ ε α} (c : Prop) [Decidable c] (h : c → Preserves E I R m)
    (h' : ¬c → Preserves E I R m') : Preserves E I R (if c then m else m') := by
  split
  · exact h ‹_›
  · exact h' ‹_›

/-- No relation between the states before and after. -/
def Unrelated (_ _ : σ) : Prop := True

instance : IsPreorder σ Unrelated where
  refl _ := trivial
  trans _ _ _ _ _ := trivial

variable [IsPreorder σ R]

theorem preserves_pure (a : α) : Preserves E I R (pure a) := fun s hs => ⟨hs, refl_of R s⟩

/-- A program that keeps the invariant may be followed by whatever works from there. -/
theorem Preserves.wp_bind {s : σ} (hm : Preserves E I R m) (hs : I s)
    (hk : ∀ a t, I t → R s t → wp E (k a) (fun _ u => I u ∧ R t u) t) :
    wp E (m >>= k) (fun _ u => I u ∧ R s u) s := by
  rw [Hoare.wp_bind]
  refine wp_mono (hm s hs) ?_
  rintro a t ⟨ht, hst⟩
  refine wp_mono (hk a t ht hst) ?_
  rintro b u ⟨hu, htu⟩
  exact ⟨hu, trans_of R hst htu⟩

theorem Preserves.when {m : Prog σ ε Unit} (c : Prop) [Decidable c] (h : c → Preserves E I R m) :
    Preserves E I R (Hoare.when c m) := Preserves.ite c h fun _ => preserves_pure _

theorem Preserves.bind (hm : Preserves E I R m) (hk : ∀ a, Preserves E I R (k a)) :
    Preserves E I R (m >>= k) :=
  fun _ hs => hm.wp_bind hs fun a t ht _ => hk a t ht

/-- What every program of a list preserves is preserved by running the list. -/
theorem preserves_forM {γ : Type} {f : γ → Prog σ ε PUnit} :
    ∀ {l : List γ}, (∀ c ∈ l, Preserves E I R (f c)) → Preserves E I R (forM l f)
  | [], _ => preserves_pure _
  | c :: l, h => by
    rw [List.forM_cons]
    exact (h c (by simp)).bind fun _ => preserves_forM fun d hd => h d (List.mem_cons_of_mem _ hd)

end Preserves

end Hoare
