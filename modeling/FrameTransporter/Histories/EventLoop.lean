import Mathlib.Algebra.Ring.Int.Defs
import Mathlib.Data.Finset.Card
import Mathlib.Data.Int.Basic

/-! # Event loops that count references

A loop counts references. A watcher that is started takes one, and gives it back when
it is stopped. A program may give up the reference of a watcher that is not to keep the
loop running, and has to take it again before it stops the watcher. Then the count is
that of the active watchers that keep the loop running, whatever loop it is.
-/

namespace EventLoop

/-- The operations of a loop on its states and its watchers, with the active watchers and the
number of references of a state. `fire` is what happens before the handler of a timer is called,
which repeats or not. -/
structure Ops (α σ : Type*) where
  active : σ → Finset α
  refs : σ → ℤ
  start : α → σ → σ
  stop : α → σ → σ
  ref : σ → σ
  unref : σ → σ
  fire : Bool → α → σ → σ

variable {α σ : Type*} [DecidableEq α]

/-- Every active watcher keeps a reference, others may be added and removed, and a timer that does
not repeat is stopped when it fires. -/
structure Ops.Lawful (ev : Ops α σ) : Prop where
  active_start : ∀ a l, ev.active (ev.start a l) = insert a (ev.active l)
  refs_start : ∀ a l,
    ev.refs (ev.start a l) = if a ∈ ev.active l then ev.refs l else ev.refs l + 1
  active_stop : ∀ a l, ev.active (ev.stop a l) = (ev.active l).erase a
  refs_stop : ∀ a l, ev.refs (ev.stop a l) = if a ∈ ev.active l then ev.refs l - 1 else ev.refs l
  active_ref : ∀ l, ev.active (ev.ref l) = ev.active l
  refs_ref : ∀ l, ev.refs (ev.ref l) = ev.refs l + 1
  active_unref : ∀ l, ev.active (ev.unref l) = ev.active l
  refs_unref : ∀ l, ev.refs (ev.unref l) = ev.refs l - 1
  active_fire : ∀ a l, ev.active (ev.fire true a l) = ev.active l
  refs_fire : ∀ a l, ev.refs (ev.fire true a l) = ev.refs l
  active_expire : ∀ a l, ev.active (ev.fire false a l) = (ev.active l).erase a
  refs_expire : ∀ a l, a ∈ ev.active l → ev.refs (ev.fire false a l) = ev.refs l - 1

/-- There are `k` references less than active watchers that keep the loop running. -/
def Ops.Counts (ev : Ops α σ) (keeps : α → Prop) [DecidablePred keeps] (k : ℤ) (l : σ) : Prop :=
  ev.refs l = ((ev.active l).filter keeps).card - k

namespace Ops.Lawful

variable {ev : Ops α σ} {keeps : α → Prop} [DecidablePred keeps] {a : α} {k : ℤ} {l : σ}

theorem counts_start (h : ev.Lawful) (hl : ev.Counts keeps k l) (ha : keeps a) :
    ev.Counts keeps k (ev.start a l) := by
  unfold Ops.Counts at *
  rw [h.refs_start, h.active_start]
  split_ifs with hm
  · rwa [Finset.insert_eq_self.mpr hm]
  · rw [Finset.filter_insert, if_pos ha, Finset.card_insert_of_notMem (by simp [hm])]
    omega

theorem counts_stop (h : ev.Lawful) (hl : ev.Counts keeps k l) (ha : keeps a) :
    ev.Counts keeps k (ev.stop a l) := by
  unfold Ops.Counts at *
  rw [h.refs_stop, h.active_stop, Finset.filter_erase]
  split_ifs with hm
  · have hcard := Finset.card_erase_add_one (s := (ev.active l).filter keeps) (a := a)
      (by simp [hm, ha])
    omega
  · rwa [Finset.erase_eq_of_notMem (by simp [hm])]

theorem filter_erase (ha : ¬keeps a) (s : Finset α) :
    (s.erase a).filter keeps = s.filter keeps := by
  rw [Finset.filter_erase]
  exact Finset.erase_eq_of_notMem (by simp [ha])

/-- A watcher that does not keep the loop running is started. -/
theorem counts_start_unref (h : ev.Lawful) (hl : ev.Counts keeps k l) (ha : ¬keeps a)
    (hn : a ∉ ev.active l) : ev.Counts keeps k (ev.unref (ev.start a l)) := by
  unfold Ops.Counts at *
  rw [h.refs_unref, h.active_unref, h.refs_start, h.active_start, if_neg hn, Finset.filter_insert,
    if_neg ha]
  omega

/-- A watcher that does not keep the loop running is stopped. -/
theorem counts_ref_stop (h : ev.Lawful) (hl : ev.Counts keeps k l) (ha : ¬keeps a)
    (hm : a ∈ ev.active l) : ev.Counts keeps k (ev.stop a (ev.ref l)) := by
  unfold Ops.Counts at *
  rw [h.refs_stop, h.active_stop, h.active_ref, h.refs_ref, if_pos hm, filter_erase ha]
  omega

theorem counts_fire (h : ev.Lawful) (hl : ev.Counts keeps k l) :
    ev.Counts keeps k (ev.fire true a l) := by
  unfold Ops.Counts at *
  rwa [h.refs_fire, h.active_fire]

/-- A timer is stopped by the loop, although its reference was given up. -/
theorem counts_expire (h : ev.Lawful) (hl : ev.Counts keeps k l) (ha : ¬keeps a)
    (hm : a ∈ ev.active l) : ev.Counts keeps (k + 1) (ev.fire false a l) := by
  unfold Ops.Counts at *
  rw [h.refs_expire a l hm, h.active_expire, filter_erase ha]
  omega

end Ops.Lawful

/-- The loop whose states are the active watchers and the number of references. -/
def counting : Ops α (Finset α × ℤ) where
  active := Prod.fst
  refs := Prod.snd
  start a l := if a ∈ l.1 then l else (insert a l.1, l.2 + 1)
  stop a l := if a ∈ l.1 then (l.1.erase a, l.2 - 1) else l
  ref l := (l.1, l.2 + 1)
  unref l := (l.1, l.2 - 1)
  fire repeats a l := if repeats = false ∧ a ∈ l.1 then (l.1.erase a, l.2 - 1) else l

theorem lawful_counting : (counting (α := α)).Lawful where
  active_start a l := by
    by_cases h : a ∈ l.1 <;> simp [counting, h]
  refs_start a l := by
    by_cases h : a ∈ l.1 <;> simp [counting, h]
  active_stop a l := by
    by_cases h : a ∈ l.1 <;> simp [counting, h]
  refs_stop a l := by
    by_cases h : a ∈ l.1 <;> simp [counting, h]
  active_ref _ := rfl
  refs_ref _ := rfl
  active_unref _ := rfl
  refs_unref _ := rfl
  active_fire a l := by simp [counting]
  refs_fire a l := by simp [counting]
  active_expire a l := by
    by_cases h : a ∈ l.1 <;> simp [counting, h]
  refs_expire a l h := by
    change a ∈ l.1 at h
    simp [counting, h]

end EventLoop
