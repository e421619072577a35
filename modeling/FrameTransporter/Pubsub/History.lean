import FrameTransporter.Pubsub.Subscribers

/-! # The subscriptions of a history

Subscribers subscribe, unsubscribe and are finalised in any order. What remains is
a list of subscriptions, in the order in which they were made, and the list of
each publisher is the part of it that is about this publisher.
-/

namespace FrameTransporter.Pubsub

open Hoare Intrusive

/-- The operations on subscribers. -/
inductive Op
  | subscribe (s : SubscriberId) (pubsub : Option PubsubId) (topic : Topic)
  | unsubscribe (s : SubscriberId)
  | fini (s : SubscriberId)

/-- An operation and its result. -/
def Op.exec : Op → PubsubM Bool
  | .subscribe s pubsub topic => Pubsub.subscribe s pubsub (some topic)
  | .unsubscribe s => Pubsub.unsubscribe s
  | .fini s => do
    subscriberFini s
    return true

/-- A history of operations and their results. -/
def runOps : List Op → PubsubM (List Bool)
  | [] => return []
  | op :: ops => do
    let ok ← op.exec
    let oks ← runOps ops
    return ok :: oks

/-- The subscriptions in their order, each with the publisher. -/
abbrev Subscriptions := List (SubscriberId × PubsubId)

namespace Subscriptions

/-- The subscribers of a publisher. -/
def members (es : Subscriptions) (p : PubsubId) : List SubscriberId :=
  (es.filter fun e => e.2 = p).map Prod.fst

/-- The result of an operation. -/
def result (contextDefault : Option PubsubId) (es : Subscriptions) : Op → Bool
  | .subscribe s pubsub _ =>
    decide ((pubsub <|> contextDefault) ≠ none ∧ s ∉ es.map Prod.fst)
  | .unsubscribe s => decide (s ∈ es.map Prod.fst)
  | .fini _ => true

/-- The subscriptions after an operation. -/
def step (contextDefault : Option PubsubId) (es : Subscriptions) : Op → Subscriptions
  | .subscribe s pubsub _ =>
    match pubsub <|> contextDefault with
    | none => es
    | some p => if s ∈ es.map Prod.fst then es else es ++ [(s, p)]
  | .unsubscribe s | .fini s => es.filter fun e => e.1 ≠ s

/-- The subscriptions after a history. -/
def after (contextDefault : Option PubsubId) (es : Subscriptions) (ops : List Op) : Subscriptions :=
  ops.foldl (step contextDefault) es

/-- The results of a history. -/
def results (contextDefault : Option PubsubId) : Subscriptions → List Op → List Bool
  | _, [] => []
  | es, op :: ops =>
    result contextDefault es op :: results contextDefault (step contextDefault es op) ops

variable {es : Subscriptions} {s : SubscriberId} {p q : PubsubId}

theorem mem_members : s ∈ es.members p ↔ (s, p) ∈ es := by
  unfold members
  constructor
  · intro h
    obtain ⟨e, he, rfl⟩ := List.mem_map.mp h
    obtain ⟨hmem, hp⟩ := List.mem_filter.mp he
    obtain rfl := of_decide_eq_true hp
    exact hmem
  · intro h
    exact List.mem_map.mpr ⟨(s, p), List.mem_filter.mpr ⟨h, decide_eq_true rfl⟩, rfl⟩

theorem mem_map_fst : s ∈ es.map Prod.fst ↔ ∃ p, s ∈ es.members p := by
  constructor
  · intro h
    obtain ⟨e, he, rfl⟩ := List.mem_map.mp h
    exact ⟨e.2, mem_members.mpr he⟩
  · rintro ⟨p, h⟩
    exact List.mem_map.mpr ⟨(s, p), mem_members.mp h, rfl⟩

/-- A new subscription is the last one of its publisher. -/
theorem members_append (es : Subscriptions) (s : SubscriberId) (p : PubsubId) :
    members (es ++ [(s, p)]) = Function.update (members es) p (members es p ++ [s]) := by
  funext q
  rcases eq_or_ne q p with rfl | hq
  · simp [members, List.filter_append]
  · rw [Function.update_of_ne hq]
    simp [members, List.filter_append, Ne.symm hq]

theorem members_filter (es : Subscriptions) (s : SubscriberId) (p : PubsubId) :
    members (es.filter fun e => e.1 ≠ s) p = (members es p).filter fun t => t ≠ s := by
  rw [members, members, List.filter_map, List.filter_filter, List.filter_filter]
  congr 1
  exact List.filter_congr fun e _ => Bool.and_comm _ _

end Subscriptions

open Subscriptions

/-- The subscribers in memory have the subscriptions. -/
structure Recorded (w : Pubsubs) (es : Subscriptions) : Prop where
  listed : Listed w es.members
  once : (es.map Prod.fst).Nodup

section Recorded

variable {w : Pubsubs} {es : Subscriptions} {s : SubscriberId} {p : PubsubId}

/-- Who is in the list of a publisher. -/
theorem Recorded.mem_iff (h : Recorded w es) :
    s ∈ es.members p ↔ (w.subscribers s).pubsub = some p ∧ (w.subscribers s).topic ≠ none := by
  rw [h.listed.mem]
  refine ⟨fun hp => ⟨hp, h.listed.topic s ?_⟩, And.left⟩
  rw [hp]
  exact Option.some_ne_none p

theorem Recorded.mem_map_fst (h : Recorded w es) :
    s ∈ es.map Prod.fst ↔ (w.subscribers s).pubsub ≠ none := by
  rw [Subscriptions.mem_map_fst, Option.ne_none_iff_exists']
  exact exists_congr fun p => h.listed.mem p s

theorem recorded_init (contextDefault : Option PubsubId) (callback : SubscriberId → Bool) :
    Recorded (init contextDefault callback) [] :=
  ⟨listed_init contextDefault callback, List.nodup_nil⟩

/-- A subscriber that leaves the list of its publisher is in no list. -/
theorem Recorded.members_filter (h : Recorded w es) {ys zs : List SubscriberId}
    (hx : es.members p = ys ++ s :: zs) :
    members (es.filter fun e => e.1 ≠ s) = Function.update es.members p (ys ++ zs) := by
  funext q
  rw [Subscriptions.members_filter]
  have hmem : s ∈ es.members p := by simp [hx]
  rcases eq_or_ne q p with rfl | hq
  · have hnodup := (h.listed.chain q).nodup
    rw [hx] at hnodup ⊢
    have hnot := (List.nodup_cons.mp (List.nodup_middle.mp hnodup)).1
    rw [Function.update_self, List.filter_append, List.filter_cons_of_neg (by simp),
      ← List.filter_append]
    exact List.filter_eq_self.mpr fun t ht => decide_eq_true fun e => hnot (e ▸ ht)
  · rw [Function.update_of_ne hq]
    exact List.filter_eq_self.mpr fun t ht =>
      decide_eq_true fun e => h.listed.not_mem hmem hq (e ▸ ht)

theorem Recorded.filter (h : Recorded w es) {w' : Pubsubs} {ys zs : List SubscriberId}
    (hx : es.members p = ys ++ s :: zs)
    (hw : Listed w' (Function.update es.members p (ys ++ zs))) :
    Recorded w' (es.filter fun e => e.1 ≠ s) :=
  ⟨h.members_filter hx ▸ hw, h.once.sublist (List.filter_sublist.map Prod.fst)⟩

theorem Recorded.filter_free (h : Recorded w es) (hs : (w.subscribers s).pubsub = none) :
    es.filter (fun e => e.1 ≠ s) = es :=
  List.filter_eq_self.mpr fun e he => decide_eq_true fun hes =>
    h.mem_map_fst.mp (List.mem_map.mpr ⟨e, he, hes⟩) hs

/-- What an operation does: its result, what a refused one leaves alone, and the subscriptions. -/
def Op.Effect (w : Pubsubs) (es : Subscriptions) (op : Op) (ok : Bool) (w' : Pubsubs) : Prop :=
  ok = result w.contextDefault es op ∧ (ok = false → w' = w) ∧
    w'.contextDefault = w.contextDefault ∧ Recorded w' (step w.contextDefault es op)

theorem recorded_subscribe {pubsub : Option PubsubId} {topic : Topic} (h : Recorded w es) :
    wp (fun _ => False) (subscribe s pubsub (some topic))
      ((Op.subscribe s pubsub topic).Effect w es) w := by
  refine wp_mono (subscribe_wp h.listed) ?_
  rintro ok w' ⟨hsame, ⟨rfl, rfl, hno⟩ | ⟨rfl, hs, p, hp, hw⟩⟩
  · refine ⟨?_, fun _ => rfl, rfl, ?_⟩
    · refine (decide_eq_false fun hyes => ?_).symm
      exact hno.elim hyes.1 fun hs => hyes.2 (h.mem_map_fst.mpr hs)
    · rw [step]
      split
      · exact h
      · next hp =>
        rw [if_pos (h.mem_map_fst.mpr (hno.resolve_left (by simp [hp])))]
        exact h
  · have hnot : s ∉ es.map Prod.fst := fun hm => h.mem_map_fst.mp hm hs
    refine ⟨?_, by rintro ⟨⟩, hsame.contextDefault, ?_⟩
    · exact (decide_eq_true ⟨hp ▸ Option.some_ne_none p, hnot⟩).symm
    · rw [step, hp]
      dsimp only
      rw [if_neg hnot]
      refine ⟨members_append es s p ▸ hw, ?_⟩
      rw [List.map_append, List.map_singleton]
      exact List.nodup_append_comm.mp (List.nodup_cons.mpr ⟨hnot, h.once⟩)

theorem recorded_unsubscribe (h : Recorded w es) :
    wp (fun _ => False) (unsubscribe s) (fun ok w' => (Op.unsubscribe s).Effect w es ok w' ∧
      (w'.subscribers s).pubsub = none ∧ w'.next s = none) w := by
  refine wp_mono (unsubscribe_wp h.listed) ?_
  rintro ok w' ⟨hsame, ⟨rfl, rfl, hs⟩ | ⟨rfl, hs', hnext, p, ys, zs, hx, hw⟩⟩
  · refine ⟨⟨?_, fun _ => rfl, rfl, ?_⟩, hs, (h.listed.free s hs).1⟩
    · exact (decide_eq_false fun hm => h.mem_map_fst.mp hm hs).symm
    · rw [step, h.filter_free hs]
      exact h
  · have hmem : s ∈ es.map Prod.fst := Subscriptions.mem_map_fst.mpr ⟨p, by simp [hx]⟩
    exact ⟨⟨(decide_eq_true hmem).symm, by rintro ⟨⟩, hsame.contextDefault, h.filter hx hw⟩, hs',
      hnext⟩

/-- The assertions of `ft_subscriber_fini` hold: the subscriber is in no list any more. -/
theorem recorded_fini (h : Recorded w es) :
    wp (fun _ => False) (Op.exec (.fini s)) ((Op.fini s).Effect w es) w := by
  rw [Op.exec, wp_bind, subscriberFini, wp_bind, wp_get, wp_bind, wp_when]
  refine ⟨fun _ => ?_, fun hs => ?_⟩
  · rw [wp_bind]
    refine wp_mono (recorded_unsubscribe h) ?_
    rintro ok w' ⟨⟨_, _, hc, hw⟩, hs, hnext⟩
    have hnext : (w'.subscribers s).next = none := hnext
    rw [wp_pure, wp_bind, wp_get, if_neg (not_not_intro hs), if_neg (not_not_intro hnext)]
    exact ⟨rfl, by rintro ⟨⟩, hc, hw⟩
  · have hs := not_not.mp hs
    have hnext : (w.subscribers s).next = none := (h.listed.free s hs).1
    rw [wp_bind, wp_get, if_neg (not_not_intro hs), if_neg (not_not_intro hnext)]
    refine ⟨rfl, by rintro ⟨⟩, rfl, ?_⟩
    rw [step, h.filter_free hs]
    exact h

theorem recorded_exec (op : Op) (h : Recorded w es) :
    wp (fun _ => False) op.exec (op.Effect w es) w := by
  cases op with
  | subscribe s pubsub topic => exact recorded_subscribe h
  | unsubscribe s => exact wp_mono (recorded_unsubscribe h) fun _ _ => And.left
  | fini s => exact recorded_fini h

theorem recorded_runOps (ops : List Op) (h : Recorded w es) :
    wp (fun _ => False) (runOps ops) (fun oks w' => oks = results w.contextDefault es ops ∧
      w'.contextDefault = w.contextDefault ∧ Recorded w' (after w.contextDefault es ops)) w := by
  induction ops generalizing w es with
  | nil => exact ⟨rfl, rfl, h⟩
  | cons op ops ih =>
    rw [runOps, wp_bind]
    refine wp_mono (recorded_exec op h) ?_
    rintro ok w' ⟨hok, _, hc, hw⟩
    rw [wp_bind]
    refine wp_mono (ih hw) ?_
    rintro oks w'' ⟨hoks, hc', hw'⟩
    rw [hc] at hoks hc' hw'
    exact ⟨by rw [hok, hoks, results], hc', hw'⟩

/-- After every history the list of each publisher has its subscriptions, in their order, and no
assertion failed. The results are those of the subscriptions, and a refused operation changes
nothing. -/
theorem runOps_recorded (contextDefault : Option PubsubId) (callback : SubscriberId → Bool)
    (ops : List Op) :
    wp (fun _ => False) (runOps ops) (fun oks w =>
      let es := after contextDefault [] ops
      oks = results contextDefault [] ops ∧ (es.map Prod.fst).Nodup ∧
        (∀ p, Chain w.next (w.heads p) (es.members p)) ∧
        (∀ p s, s ∈ es.members p ↔
          (w.subscribers s).pubsub = some p ∧ (w.subscribers s).topic ≠ none) ∧
        ∀ op : Op, wp (fun _ => False) op.exec (fun ok w' =>
          ok = result contextDefault es op ∧ (ok = false → w' = w)) w)
      (init contextDefault callback) := by
  refine wp_mono (recorded_runOps ops (recorded_init contextDefault callback)) ?_
  rintro oks w ⟨hoks, hc, hw⟩
  refine ⟨hoks, hw.once, hw.listed.chain, fun p s => hw.mem_iff, fun op => ?_⟩
  refine wp_mono (recorded_exec op hw) ?_
  rintro ok w' ⟨hok, hsame, _⟩
  refine ⟨?_, hsame⟩
  rw [hok, hc]
  rfl

end Recorded

end FrameTransporter.Pubsub
