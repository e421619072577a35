import FrameTransporter.Pubsub.Subscribers

/-! # Who is called when a message is published

A message should reach each subscriber that matched when publishing began and
that is still there when its turn comes. The loop follows the link of the
subscriber it has just called, and unsubscribing clears that link. So delivery is
right exactly when no subscriber leaves in its own callback while another one
still waits for its turn.
-/

namespace FrameTransporter.Pubsub

open Hoare Intrusive

/-- The subscriber takes messages of a topic that `p` publishes. -/
def Due (w : Pubsubs) (p : PubsubId) (topic : Topic) (s : SubscriberId) : Prop :=
  (w.subscribers s).pubsub = some p ∧ (w.subscribers s).topic = some topic ∧
    (w.subscribers s).callback = true

instance (w : Pubsubs) (p : PubsubId) (topic : Topic) (s : SubscriberId) :
    Decidable (Due w p topic s) := inferInstanceAs (Decidable (_ ∧ _))

/-- The delivery that subscribers expect: each of the listed ones in its turn, if it is due. -/
def deliver (callback : SubscriberId → PubsubM Unit) (p : PubsubId) (topic : Topic) :
    List SubscriberId → PubsubM Unit
  | [] => return ()
  | s :: todo => do
    let w ← get
    when (Due w p topic s) <| call callback s
    deliver callback p topic todo

/-- What callbacks do: each makes a list of actions that depends on the state. -/
abbrev Behaviour := SubscriberId → Pubsubs → List Action

/-- Callbacks may unsubscribe anyone, and subscribe new ones: none of `old`. -/
def Action.New (old : List SubscriberId) : Action → Prop
  | .subscribe s _ _ => s ∉ old
  | .unsubscribe _ => True

instance (old : List SubscriberId) : (a : Action) → Decidable (a.New old)
  | .subscribe s _ _ => inferInstanceAs (Decidable (s ∉ old))
  | .unsubscribe _ => inferInstanceAs (Decidable True)

def scripted (old : List SubscriberId) (behaviour : Behaviour) (s : SubscriberId) :
    PubsubM Unit := do
  let w ← get
  forM (behaviour s w) fun a => when (a.New old) a.exec

/-- Within `n` rounds of its loop, publishing calls the subscribers that were listed at the start
exactly as `deliver` does. -/
def Delivers (callback : SubscriberId → PubsubM Unit) (p : PubsubId) (topic : Topic) (n : ℕ)
    (old : List SubscriberId) (w : Pubsubs) : Prop :=
  ∃ real ideal, publish callback (some p) topic n w = .ok (true, real) ∧
    deliver callback p topic old w = .ok ((), ideal) ∧
    real.calls.filter (· ∈ old) = ideal.calls.filter (· ∈ old)

/-- Whenever a listed subscriber leaves in its own callback, none behind it is due. -/
def LeavesLast (callback : SubscriberId → PubsubM Unit) (p : PubsubId) (topic : Topic) :
    List SubscriberId → Pubsubs → Prop
  | [], _ => True
  | s :: todo, w =>
    if Due w p topic s then
      wp (fun _ => False) (call callback s) (fun _ w' =>
        ((w'.subscribers s).pubsub ≠ some p → ∀ t ∈ todo, ¬Due w' p topic t) ∧
          LeavesLast callback p topic todo w') w
    else LeavesLast callback p topic todo w

/-- While a message is published, the list of `p` consists of the old subscribers that are left,
in their order, and of new ones behind them. -/
structure Follows (p : PubsubId) (old news : List SubscriberId) (w : Pubsubs)
    (xs : PubsubId → List SubscriberId) : Prop where
  listed : Listed w xs
  eq : xs p = old.filter (· ∈ xs p) ++ news
  new : ∀ s ∈ news, s ∉ old
  stay : ∀ s ∈ old, ∀ q, q ≠ p → s ∉ xs q

variable {w : Pubsubs} {xs : PubsubId → List SubscriberId} {old news todo pre : List SubscriberId}
  {p : PubsubId} {s : SubscriberId} {topic : Topic} {behaviour : Behaviour} {n : ℕ}

section Actions

theorem Follows.subscribe {pubsub : Option PubsubId} (h : Follows p old news w xs) (hs : s ∉ old) :
    wp (fun _ => False) (Pubsub.subscribe s pubsub (some topic)) (fun _ w' =>
      SameCalls w w' ∧ ∃ news' xs', Follows p old news' w' xs') w := by
  refine wp_mono (subscribe_wp h.listed) ?_
  rintro _ w' ⟨hc, ⟨-, rfl, -⟩ | ⟨-, -, q, -, hl⟩⟩
  · exact ⟨hc, news, xs, h⟩
  refine ⟨hc, ?_⟩
  by_cases hq : q = p
  · subst hq
    refine ⟨news ++ [s], _, hl, ?_, ?_, fun t ht q' hq' => ?_⟩
    · have hf : old.filter (· ∈ xs q ++ [s]) = old.filter (· ∈ xs q) :=
        List.filter_congr fun t ht => by
          have hts : t ≠ s := fun e => hs (e ▸ ht)
          simp [hts]
      rw [Function.update_self, hf, ← List.append_assoc, ← h.eq]
    · intro t ht
      rcases List.mem_append.mp ht with ht | ht
      · exact h.new t ht
      · exact List.mem_singleton.mp ht ▸ hs
    · rw [Function.update_of_ne hq']
      exact h.stay t ht q' hq'
  · refine ⟨news, _, hl, ?_, h.new, fun t ht q' hq' hm => ?_⟩
    · rw [Function.update_of_ne (Ne.symm hq)]
      exact h.eq
    · by_cases hq'' : q' = q
      · subst hq''
        rw [Function.update_self] at hm
        rcases List.mem_append.mp hm with hm | hm
        · exact h.stay t ht q' hq' hm
        · exact hs (List.mem_singleton.mp hm ▸ ht)
      · rw [Function.update_of_ne hq''] at hm
        exact h.stay t ht q' hq' hm

theorem Follows.unsubscribe (h : Follows p old news w xs) :
    wp (fun _ => False) (Pubsub.unsubscribe s) (fun _ w' =>
      SameCalls w w' ∧ ∃ news' xs', Follows p old news' w' xs') w := by
  refine wp_mono (unsubscribe_wp h.listed) ?_
  rintro _ w' ⟨hc, ⟨-, rfl, -⟩ | ⟨-, -, -, q, ys, zs, hx, hl⟩⟩
  · exact ⟨hc, news, xs, h⟩
  have hsub : ∀ t ∈ ys ++ zs, t ∈ xs q := fun t ht => by
    rw [hx]
    rcases List.mem_append.mp ht with ht | ht <;> simp [ht]
  have hstay : ∀ t ∈ old, ∀ q', q' ≠ p → t ∉ Function.update xs q (ys ++ zs) q' := by
    intro t ht q' hq' hm
    by_cases hq'' : q' = q
    · subst hq''
      rw [Function.update_self] at hm
      exact h.stay t ht q' hq' (hsub t hm)
    · rw [Function.update_of_ne hq''] at hm
      exact h.stay t ht q' hq' hm
  refine ⟨hc, ?_⟩
  by_cases hq : q = p
  · subst hq
    have hnodup := (h.listed.chain q).nodup
    rw [hx] at hnodup
    have hs : s ∉ ys ++ zs := (List.nodup_cons.mp (List.nodup_middle.mp hnodup)).1
    -- taking `s` out is filtering it out
    have he : ys ++ zs = (xs q).filter (· ≠ s) := by
      rw [hx, List.filter_append, List.filter_cons_of_neg (by simp), ← List.filter_append]
      exact (List.filter_eq_self.mpr fun t ht => by
        have hts : t ≠ s := fun e => hs (e ▸ ht)
        simpa using hts).symm
    refine ⟨news.filter (· ≠ s), _, hl, ?_, fun t ht => h.new t (List.mem_filter.mp ht).1, hstay⟩
    have hf : old.filter (· ∈ (xs q).filter (· ≠ s)) =
        (old.filter (· ∈ xs q)).filter (· ≠ s) := by
      rw [List.filter_filter]
      exact List.filter_congr fun t _ => by simp [and_comm]
    rw [Function.update_self, he, hf, ← List.filter_append, ← h.eq]
  · refine ⟨news, _, hl, ?_, h.new, hstay⟩
    rw [Function.update_of_ne (Ne.symm hq)]
    exact h.eq

theorem Follows.exec {a : Action} (h : Follows p old news w xs) (ha : a.New old) :
    wp (fun _ => False) a.exec (fun _ w' =>
      SameCalls w w' ∧ ∃ news' xs', Follows p old news' w' xs') w := by
  cases a with
  | subscribe s pubsub topic =>
    rw [Action.exec, wp_bind]
    exact h.subscribe ha
  | unsubscribe s =>
    rw [Action.exec, wp_bind]
    exact h.unsubscribe

theorem Follows.bump (h : Follows p old news w xs) (x : Subscriber) (cs : List SubscriberId)
    (hx : x = { w.subscribers s with called := x.called }) :
    Follows p old news { w.setSubscriber s x with calls := cs } xs := by
  have hn : ∀ t, (w.setSubscriber s x).next t = w.next t := by
    intro t
    by_cases ht : t = s
    · subst ht
      rw [hx]
      simp [Pubsubs.next, Pubsubs.setSubscriber]
    · simp [Pubsubs.next, Pubsubs.setSubscriber, ht]
  have hp : ∀ t, ((w.setSubscriber s x).subscribers t).pubsub = (w.subscribers t).pubsub := by
    intro t
    by_cases ht : t = s
    · subst ht
      rw [hx]
      simp [Pubsubs.setSubscriber]
    · simp [Pubsubs.setSubscriber, ht]
  have ht : ∀ t, ((w.setSubscriber s x).subscribers t).topic = (w.subscribers t).topic := by
    intro t
    by_cases ht : t = s
    · subst ht
      rw [hx]
      simp [Pubsubs.setSubscriber]
    · simp [Pubsubs.setSubscriber, ht]
  refine ⟨⟨fun q => ?_, fun q t => ?_, fun t hf => ?_, fun t hf => ?_, h.listed.bound⟩, h.eq, h.new,
    h.stay⟩
  · exact (h.listed.chain q).congr fun t _ => (hn t).symm
  · exact (h.listed.mem q t).trans (by rw [← hp t])
  · have hf := h.listed.free t ((hp t).symm.trans hf)
    exact ⟨(hn t).trans hf.1, (ht t).trans hf.2⟩
  · have hf := h.listed.topic t fun e => hf ((hp t).trans e)
    exact fun e => hf ((ht t).symm.trans e)

variable (behaviour) in
/-- A callback of the behaviour is called, and the list is followed again after it. -/
theorem Follows.call (h : Follows p old news w xs) :
    wp (fun _ => False) (call (scripted old behaviour) s) (fun _ w' =>
      w'.calls = w.calls ++ [s] ∧ ∃ news' xs', Follows p old news' w' xs') w := by
  unfold Pubsub.call scripted
  simp only [wp_bind, wp_modify, wp_get]
  refine wp_forM (I := fun w' => w'.calls = w.calls ++ [s] ∧ ∃ news' xs',
    Follows p old news' w' xs')
    ?_ ?_
  swap
  · exact ⟨rfl, news, xs, h.bump _ _ rfl⟩
  rintro a - w₁ ⟨hc, news₁, xs₁, h₁⟩
  rw [wp_when]
  refine ⟨fun ha => ?_, fun _ => ⟨hc, news₁, xs₁, h₁⟩⟩
  refine wp_mono (h₁.exec ha) ?_
  rintro _ w₂ ⟨hc', h₂⟩
  exact ⟨hc'.calls.trans hc, h₂⟩

end Actions

section Walk

/-- Behind a new subscriber there are only new ones, in whatever list it is. -/
theorem Follows.next_new (h : Follows p old news w xs) (hs : s ∉ old) :
    ∃ ys, Chain w.next (w.next s) ys ∧ ∀ t ∈ ys, t ∉ old := by
  cases hp : (w.subscribers s).pubsub with
  | none => exact ⟨[], (h.listed.free s hp).1, by simp⟩
  | some q =>
    have hmem := (h.listed.mem q s).mpr hp
    by_cases hq : q = p
    · subst hq
      have hnew : s ∈ news := by
        rw [h.eq] at hmem
        exact (List.mem_append.mp hmem).resolve_left fun hf => hs (List.mem_filter.mp hf).1
      obtain ⟨as, bs, hnews⟩ := List.append_of_mem hnew
      have hc := h.listed.chain q
      rw [h.eq, hnews, ← List.append_assoc] at hc
      exact ⟨bs, hc.drop, fun t ht => h.new t (by simp [hnews, ht])⟩
    · obtain ⟨as, bs, hxs⟩ := List.append_of_mem hmem
      have hc := h.listed.chain q
      rw [hxs] at hc
      exact ⟨bs, hc.drop, fun t ht ho => h.stay t ho q hq (by simp [hxs, ht])⟩

/-- Behind an old subscriber that is left there are the later ones that are left and the new ones;
one that has gone leads nowhere. -/
theorem Follows.next_old (h : Follows p old news w xs) (ho : old = pre ++ s :: todo) :
    if s ∈ xs p then Chain w.next (w.next s) (todo.filter (· ∈ xs p) ++ news)
    else w.next s = none := by
  split
  · next hs =>
    have hc := h.listed.chain p
    have he := h.eq
    rw [ho, List.filter_append, List.filter_cons_of_pos (by simpa using hs)] at he
    rw [he, List.append_assoc] at hc
    exact hc.drop
  · next hs =>
    refine (h.listed.free s ?_).1
    cases hp : (w.subscribers s).pubsub with
    | none => rfl
    | some q =>
      have hmem := (h.listed.mem q s).mpr hp
      by_cases hq : q = p
      · exact absurd (hq ▸ hmem) hs
      · exact absurd hmem (h.stay s (by simp [ho]) q hq)

variable (behaviour topic) in
/-- Once no old subscriber is ahead, none is called any more. -/
theorem publishLoop_new (n : ℕ) : ∀ {w xs news ptr ys}, Follows p old news w xs →
    Chain w.next ptr ys → (∀ s ∈ ys, s ∉ old) →
    ∃ real, publishLoop (scripted old behaviour) topic n ptr w = .ok ((), real) ∧
      real.calls.filter (· ∈ old) = w.calls.filter (· ∈ old) := by
  induction n with
  | zero => exact fun {w} _ _ _ _ _ _ _ => ⟨w, rfl, rfl⟩
  | succ n ih =>
    intro w xs news ptr ys h hc hnew
    cases ptr with
    | none => exact ⟨w, rfl, rfl⟩
    | some s =>
      obtain ⟨zs, rfl, hc'⟩ := hc.exists_cons
      have hs : s ∉ old := hnew s (by simp)
      unfold publishLoop
      rw [bind_of_ok (a := w) (t := w) rfl]
      split
      · exact ih h hc' fun t ht => hnew t (List.mem_cons_of_mem _ ht)
      · obtain ⟨_, w', hcall, hcalls, news', xs', h'⟩ :=
          wp_returns (h.call behaviour (s := s))
        obtain ⟨ys', hnext, hnew'⟩ := h'.next_new hs
        obtain ⟨real, hreal, he⟩ := ih h' hnext hnew'
        refine ⟨real, ?_, ?_⟩
        · rw [bind_of_ok hcall, bind_of_ok (a := w') (t := w') rfl]
          exact hreal
        · rw [he, hcalls, List.filter_append, List.filter_cons_of_neg (by simpa using hs)]
          simp

theorem deliver_of_not_due {callback : SubscriberId → PubsubM Unit}
    (h : ∀ t ∈ todo, ¬Due w p topic t) : deliver callback p topic todo w = .ok ((), w) := by
  induction todo with
  | nil => rfl
  | cons s todo ih =>
    unfold deliver
    rw [bind_of_ok (a := w) (t := w) rfl, when, if_neg (h s (by simp)),
      bind_of_ok (a := ()) (t := w) rfl]
    exact ih fun t ht => h t (List.mem_cons_of_mem _ ht)

variable (behaviour topic todo) in
/-- The expected delivery ends, and calls someone if someone is due. -/
theorem Follows.deliver (h : Follows p old news w xs) : ∃ ideal cs,
    deliver (scripted old behaviour) p topic todo w = .ok ((), ideal) ∧
      ideal.calls = w.calls ++ cs ∧ cs ⊆ todo ∧ ((∃ t ∈ todo, Due w p topic t) → cs ≠ []) := by
  induction todo generalizing w xs news with
  | nil => exact ⟨w, [], rfl, by simp, by simp, by simp⟩
  | cons s todo ih =>
    unfold Pubsub.deliver
    by_cases hs : Due w p topic s
    · obtain ⟨_, w', hcall, hcalls, news', xs', h'⟩ :=
        wp_returns (h.call behaviour (s := s))
      obtain ⟨ideal, cs, hd, hc, hsub, -⟩ := ih h'
      refine ⟨ideal, s :: cs, ?_, ?_, List.cons_subset_cons _ hsub, by simp⟩
      · rw [bind_of_ok (a := w) (t := w) rfl, when, if_pos hs, bind_of_ok hcall]
        exact hd
      · rw [hc, hcalls, List.append_assoc]
        rfl
    · obtain ⟨ideal, cs, hd, hc, hsub, hne⟩ := ih h
      refine ⟨ideal, cs, ?_, hc, List.subset_cons_of_subset _ hsub, ?_⟩
      · rw [bind_of_ok (a := w) (t := w) rfl, when, if_neg hs, bind_of_ok (a := ()) (t := w) rfl]
        exact hd
      · rintro ⟨t, ht, hdue⟩
        rcases List.mem_cons.mp ht with rfl | ht
        · exact absurd hdue hs
        · exact hne ⟨t, ht, hdue⟩

theorem leavesLast_of_not_due {callback : SubscriberId → PubsubM Unit}
    (h : ∀ t ∈ todo, ¬Due w p topic t) : LeavesLast callback p topic todo w := by
  induction todo with
  | nil => trivial
  | cons s todo ih =>
    unfold LeavesLast
    rw [if_neg (h s (by simp))]
    exact ih fun t ht => h t (List.mem_cons_of_mem _ ht)

variable (behaviour topic) in
/-- The loop and the expected delivery take the same turns, until a subscriber leaves in its own
callback. -/
theorem publishLoop_iff : ∀ {todo w xs news pre ptr n}, Follows p old news w xs →
    old = pre ++ todo → Chain w.next ptr (todo.filter (· ∈ xs p) ++ news) → todo.length ≤ n →
    ∃ real ideal, publishLoop (scripted old behaviour) topic n ptr w = .ok ((), real) ∧
      Pubsub.deliver (scripted old behaviour) p topic todo w = .ok ((), ideal) ∧
      (real.calls.filter (· ∈ old) = ideal.calls.filter (· ∈ old) ↔
        LeavesLast (scripted old behaviour) p topic todo w) := by
  intro todo
  induction todo with
  | nil =>
    intro w xs news pre ptr n h _ hc _
    obtain ⟨real, hreal, he⟩ := publishLoop_new topic behaviour n h hc h.new
    exact ⟨real, w, hreal, rfl, iff_of_true he trivial⟩
  | cons s todo ih =>
    intro w xs news pre ptr n h ho hc hn
    have ho' : old = pre ++ [s] ++ todo := by simpa using ho
    have hmem : s ∈ xs p ↔ (w.subscribers s).pubsub = some p := h.listed.mem p s
    unfold Pubsub.deliver LeavesLast
    rw [bind_of_ok (a := w) (t := w) rfl]
    by_cases hs : s ∈ xs p
    · rw [List.filter_cons_of_pos (by simpa using hs)] at hc
      obtain ⟨rfl, hc⟩ := hc
      obtain ⟨n, rfl⟩ := Nat.exists_eq_succ_of_ne_zero
        (Nat.ne_of_gt (Nat.lt_of_lt_of_le (Nat.succ_pos _) hn))
      have hn : todo.length ≤ n := Nat.le_of_succ_le_succ hn
      unfold publishLoop
      rw [bind_of_ok (a := w) (t := w) rfl]
      by_cases hdue : Due w p topic s
      · obtain ⟨_, w', hcall, hcalls, news', xs', h'⟩ :=
          wp_returns (h.call behaviour (s := s))
        have hmem' : s ∈ xs' p ↔ (w'.subscribers s).pubsub = some p := h'.listed.mem p s
        have hnext := h'.next_old ho
        rw [if_neg (by simp [hdue.2.1, hdue.2.2]), if_pos hdue, when, if_pos hdue,
          bind_of_ok hcall, bind_of_ok hcall, bind_of_ok (a := w') (t := w') rfl,
          wp_iff_of_ok hcall]
        by_cases hs' : s ∈ xs' p
        · -- the walk goes on behind `s`
          rw [if_pos hs'] at hnext
          obtain ⟨real, ideal, hreal, hideal, hiff⟩ := ih h' ho' hnext hn
          refine ⟨real, ideal, hreal, hideal, hiff.trans ⟨fun hl => ⟨fun hp => ?_, hl⟩, And.right⟩⟩
          exact absurd (hmem'.mp hs') hp
        · -- `s` has left, and the walk ends
          rw [if_neg hs'] at hnext
          obtain ⟨ideal, cs, hideal, hcs, hsub, hne⟩ := h'.deliver todo topic behaviour
          refine ⟨w', ideal, ?_, hideal, ?_⟩
          · rw [hnext]
            cases n <;> rfl
          · have hold : cs.filter (· ∈ old) = cs := List.filter_eq_self.mpr fun t ht => by
              simp [ho, hsub ht]
            rw [hcs, List.filter_append, hold, List.self_eq_append_right]
            constructor
            · rintro rfl
              have hnone : ∀ t ∈ todo, ¬Due w' p topic t := fun t ht hd => hne ⟨t, ht, hd⟩ rfl
              exact ⟨fun _ => hnone, leavesLast_of_not_due hnone⟩
            · rintro ⟨hlast, -⟩
              have hnone := hlast fun hp => hs' (hmem'.mpr hp)
              rw [deliver_of_not_due hnone] at hideal
              obtain rfl : w' = ideal := congrArg Prod.snd (Except.ok.inj hideal)
              exact List.self_eq_append_right.mp hcs
      · have hneg : (w.subscribers s).topic ≠ some topic ∨ (w.subscribers s).callback = false := by
          by_contra hboth
          obtain ⟨ht, hcb⟩ := not_or.mp hboth
          exact hdue ⟨hmem.mp hs, not_not.mp ht, by simpa using hcb⟩
        obtain ⟨real, ideal, hreal, hideal, hiff⟩ := ih h ho' hc hn
        refine ⟨real, ideal, ?_, ?_, ?_⟩
        · rw [if_pos hneg]
          exact hreal
        · rw [when, if_neg hdue, bind_of_ok (a := ()) (t := w) rfl]
          exact hideal
        · rw [if_neg hdue]
          exact hiff
    · have hdue : ¬Due w p topic s := fun hd => hs (hmem.mpr hd.1)
      rw [List.filter_cons_of_neg (by simpa using hs)] at hc
      obtain ⟨real, ideal, hreal, hideal, hiff⟩ := ih h ho' hc (Nat.le_of_succ_le hn)
      refine ⟨real, ideal, hreal, ?_, ?_⟩
      · rw [when, if_neg hdue, bind_of_ok (a := ()) (t := w) rfl]
        exact hideal
      · rw [if_neg hdue]
        exact hiff

end Walk

section Publish

theorem filter_mem_self (l : List SubscriberId) : l.filter (· ∈ l) = l :=
  List.filter_eq_self.mpr fun s hs => by simpa using hs

theorem Listed.follows (h : Listed w xs) : Follows p (xs p) [] w xs where
  listed := h
  eq := by rw [filter_mem_self, List.append_nil]
  new := by simp
  stay _ hs _ hq := h.not_mem hs hq

/-- A publication delivers what it should exactly when those who leave in their own callback are
the last ones to wait for it. -/
theorem delivers_iff (h : Listed w xs) (hn : (xs p).length ≤ n) :
    Delivers (scripted (xs p) behaviour) p topic n (xs p) w ↔
      LeavesLast (scripted (xs p) behaviour) p topic (xs p) w := by
  have hc : Chain w.next (w.heads p) ((xs p).filter (· ∈ xs p) ++ []) := by
    rw [filter_mem_self, List.append_nil]
    exact h.chain p
  have hold : xs p = [] ++ xs p := rfl
  obtain ⟨real, ideal, hreal, hideal, hiff⟩ :=
    publishLoop_iff topic behaviour h.follows hold hc hn
  have hpub : publish (scripted (xs p) behaviour) (some p) topic n w = .ok (true, real) := by
    unfold publish
    rw [bind_of_ok (a := w) (t := w) rfl]
    exact bind_of_ok hreal
  rw [← hiff]
  constructor
  · rintro ⟨real', ideal', hreal', hideal', he⟩
    obtain rfl : real = real' := congrArg Prod.snd (Except.ok.inj (hpub.symm.trans hreal'))
    obtain rfl : ideal = ideal' := congrArg Prod.snd (Except.ok.inj (hideal.symm.trans hideal'))
    exact he
  · exact fun he => ⟨real, ideal, hpub, hideal, he⟩

theorem exec_listed (a : Action) (h : Listed w xs) :
    wp (fun _ => False) a.exec (fun _ w' => ∃ xs', Listed w' xs') w := by
  cases a with
  | subscribe s pubsub topic =>
    rw [Action.exec, wp_bind]
    refine wp_mono (subscribe_wp h) ?_
    rintro _ w' ⟨-, ⟨-, rfl, -⟩ | ⟨-, -, p, -, hl⟩⟩
    · exact ⟨xs, h⟩
    · exact ⟨_, hl⟩
  | unsubscribe s =>
    rw [Action.exec, wp_bind]
    refine wp_mono (unsubscribe_wp h) ?_
    rintro _ w' ⟨-, ⟨-, rfl, -⟩ | ⟨-, -, -, p, ys, zs, -, hl⟩⟩
    · exact ⟨xs, h⟩
    · exact ⟨_, hl⟩

/-- After every history of subscriptions, for every publisher and its list of subscribers, and for
every behaviour of the callbacks. -/
theorem run_delivers_iff (contextDefault : Option PubsubId) (callback : SubscriberId → Bool)
    (history : List Action) (p : PubsubId) (topic : Topic) (behaviour : Behaviour) :
    wp (fun _ => False) (forM history Action.exec) (fun _ w =>
      ∃ old, Chain w.next (w.heads p) old ∧ ∀ n, old.length ≤ n →
        (Delivers (scripted old behaviour) p topic n old w ↔
          LeavesLast (scripted old behaviour) p topic old w))
      (init contextDefault callback) := by
  have hlisted : ∀ a ∈ history, ∀ w, (∃ xs, Listed w xs) →
      wp (fun _ => False) (Action.exec a) (fun _ w' => ∃ xs, Listed w' xs) w := by
    rintro a - w ⟨xs, h⟩
    exact exec_listed a h
  refine wp_mono (wp_forM hlisted ⟨_, listed_init contextDefault callback⟩) ?_
  rintro _ w ⟨xs, h⟩
  exact ⟨xs p, h.chain p, fun n hn => delivers_iff h hn⟩

/-- The first of two subscribers leaves in its callback, and the second one is not called. -/
theorem not_run_delivers_all :
    ¬∀ (contextDefault : Option PubsubId) (callback : SubscriberId → Bool) (history : List Action)
      (p : PubsubId) (topic : Topic) (behaviour : Behaviour),
      wp (fun _ => False) (forM history Action.exec) (fun _ w =>
        ∀ old, Chain w.next (w.heads p) old → ∀ n, old.length ≤ n →
          Delivers (scripted old behaviour) p topic n old w) (init contextDefault callback) := by
  intro h
  have h := h none (fun _ => true) [.subscribe 1 (some 0) 7, .subscribe 2 (some 0) 7] 0 7
    fun s _ => if s = 1 then [.unsubscribe 1] else []
  obtain ⟨real, ideal, hreal, hideal, he⟩ := h [1, 2] ⟨rfl, rfl, rfl⟩ 2 (Nat.le_refl 2)
  obtain rfl := congrArg Prod.snd (Except.ok.inj hreal)
  obtain rfl := congrArg Prod.snd (Except.ok.inj hideal)
  exact absurd he (by decide)

end Publish

end FrameTransporter.Pubsub
