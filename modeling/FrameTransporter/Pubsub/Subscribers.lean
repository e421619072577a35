import FrameTransporter.Basic
import FrameTransporter.Hoare.Wp
import FrameTransporter.Intrusive.Chain

/-! # Publishers and their subscribers

A publisher heads a list of subscribers, in the order in which they subscribed. A
subscriber is in the list of one publisher at most. Lists are walked along their
links until the end, so a list that its users made endless is never left.
-/

namespace FrameTransporter.Pubsub

open Hoare Intrusive

abbrev PubsubId := ℕ

abbrev SubscriberId := ℕ

/-- Topics are compared by address. -/
abbrev Topic := ℕ

/-- `struct ft_subscriber`, where `callback` tells whether there is one. -/
structure Subscriber where
  pubsub : Option PubsubId
  next : Option SubscriberId
  topic : Option Topic
  callback : Bool
  called : ℕ

/-- The subscribers in memory and the heads of the lists. The last two fields do not exist in
memory: the number of subscriptions made so far, and the callbacks made so far. -/
structure Pubsubs where
  contextDefault : Option PubsubId
  heads : PubsubId → Option SubscriberId
  subscribers : SubscriberId → Subscriber
  subscriptions : ℕ
  calls : List SubscriberId

abbrev PubsubM := Prog Pubsubs Fault

namespace Pubsubs

/-- The link stored in a subscriber. -/
def next (w : Pubsubs) (s : SubscriberId) : Option SubscriberId := (w.subscribers s).next

def setSubscriber (w : Pubsubs) (s : SubscriberId) (x : Subscriber) : Pubsubs :=
  { w with subscribers := Function.update w.subscribers s x }

/-- What a link of the list of `p` points to. -/
def deref (w : Pubsubs) (p : PubsubId) (link : Link SubscriberId) : Option SubscriberId :=
  link.deref w.next (w.heads p)

/-- Store through a link of the list of `p`. -/
def assign (w : Pubsubs) (p : PubsubId) (link : Link SubscriberId) (q : Option SubscriberId) :
    Pubsubs :=
  match link with
  | .head => { w with heads := Function.update w.heads p q }
  | .next l => w.setSubscriber l { w.subscribers l with next := q }

/-- The loop of `ft_subscriber_subscribe`, for at most `n` rounds: the link that ends a list. -/
def endLink (w : Pubsubs) (p : PubsubId) : ℕ → Link SubscriberId → Option (Link SubscriberId)
  | 0, _ => none
  | n + 1, link =>
    match w.deref p link with
    | none => some link
    | some s => w.endLink p n (.next s)

/-- The loop of `ft_subscriber_unsubscribe`, for at most `n` rounds: the link to a subscriber. -/
def linkTo (w : Pubsubs) (p : PubsubId) (this : SubscriberId) :
    ℕ → Link SubscriberId → Option (Option (Link SubscriberId))
  | 0, _ => none
  | n + 1, link =>
    match w.deref p link with
    | none => some none
    | some s => if s = this then some (some link) else w.linkTo p this n (.next s)

end Pubsubs

/-- `ft_subscriber_subscribe`. -/
def subscribe (this : SubscriberId) (pubsub : Option PubsubId) (topic : Option Topic) :
    PubsubM Bool := do
  let w ← get
  let x := w.subscribers this
  if topic = none then throw (.abort .topicNotNull)
  else
    match pubsub <|> w.contextDefault with
    | none => return false
    | some p =>
      if x.topic ≠ none ∨ x.pubsub ≠ none then return false
      else if x.next ≠ none then throw (.abort .subscriberNextNull)
      else
        match w.endLink p (w.subscriptions + 1) .head with
        | none => throw .misuse
        | some link =>
          modify fun w => w.assign p link (some this)
          modify fun w => w.setSubscriber this
            { w.subscribers this with topic, pubsub := some p }
          modify fun w => { w with subscriptions := w.subscriptions + 1 }
          return true

/-- `ft_subscriber_unsubscribe`. -/
def unsubscribe (this : SubscriberId) : PubsubM Bool := do
  let w ← get
  let x := w.subscribers this
  match x.topic, x.pubsub with
  | some _, some p =>
    match w.linkTo p this (w.subscriptions + 1) .head with
    | none => throw .misuse
    | some none => return false
    | some (some link) =>
      modify fun w => w.assign p link x.next
      modify fun w => w.setSubscriber this
        { w.subscribers this with next := none, topic := none, pubsub := none }
      return true
  | _, _ => return false

/-- `ft_subscriber_fini`. -/
def subscriberFini (this : SubscriberId) : PubsubM Unit := do
  let w ← get
  when ((w.subscribers this).pubsub ≠ none) do
    let _ ← unsubscribe this
  let w ← get
  if (w.subscribers this).pubsub ≠ none then throw (.abort .subscriberPubsubNull)
  else if (w.subscribers this).next ≠ none then throw (.abort .subscriberNextNull)
  else return ()

/-- The call of the callback of a subscriber in `ft_pubsub_publish`. -/
def call (callback : SubscriberId → PubsubM Unit) (s : SubscriberId) : PubsubM Unit := do
  modify fun w => w.setSubscriber s
    { w.subscribers s with called := (w.subscribers s).called + 1 }
  modify fun w => { w with calls := w.calls ++ [s] }
  callback s

/-- The loop of `ft_pubsub_publish`, for at most `n` rounds. -/
def publishLoop (callback : SubscriberId → PubsubM Unit) (topic : Topic) :
    ℕ → Option SubscriberId → PubsubM Unit
  | 0, _ | _ + 1, none => return ()
  | n + 1, some s => do
    let w ← get
    let x := w.subscribers s
    if x.topic ≠ some topic ∨ x.callback = false then publishLoop callback topic n x.next
    else
      call callback s
      let w ← get
      publishLoop callback topic n (w.next s)

/-- `ft_pubsub_publish`, for at most `n` rounds: callbacks that add subscribers without end are
called without end. -/
def publish (callback : SubscriberId → PubsubM Unit) (pubsub : Option PubsubId) (topic : Topic)
    (n : ℕ) : PubsubM Bool := do
  let w ← get
  match pubsub <|> w.contextDefault with
  | none => return false
  | some p =>
    publishLoop callback topic n (w.heads p)
    return true

/-- What applications and callbacks do with subscribers. -/
inductive Action
  | subscribe (s : SubscriberId) (pubsub : Option PubsubId) (topic : Topic)
  | unsubscribe (s : SubscriberId)

def Action.exec : Action → PubsubM Unit
  | .subscribe s pubsub topic => do let _ ← Pubsub.subscribe s pubsub (some topic)
  | .unsubscribe s => do let _ ← Pubsub.unsubscribe s

/-- `ft_subscriber_init` for all subscribers, and no publisher has any. -/
def init (contextDefault : Option PubsubId) (callback : SubscriberId → Bool) : Pubsubs where
  contextDefault := contextDefault
  heads := fun _ => none
  subscribers := fun s => ⟨none, none, none, callback s, 0⟩
  subscriptions := 0
  calls := []

/-- The lists of the publishers: `xs p` has the subscribers of `p` in their order. -/
structure Listed (w : Pubsubs) (xs : PubsubId → List SubscriberId) : Prop where
  chain : ∀ p, Chain w.next (w.heads p) (xs p)
  mem : ∀ p s, s ∈ xs p ↔ (w.subscribers s).pubsub = some p
  free : ∀ s, (w.subscribers s).pubsub = none →
    w.next s = none ∧ (w.subscribers s).topic = none
  topic : ∀ s, (w.subscribers s).pubsub ≠ none → (w.subscribers s).topic ≠ none
  bound : ∀ p, (xs p).length ≤ w.subscriptions

variable {w : Pubsubs} {xs : PubsubId → List SubscriberId}
  {ys zs us : List SubscriberId}
  {p : PubsubId} {s : SubscriberId} {link : Link SubscriberId} {q : Option SubscriberId} {n : ℕ}

theorem listed_init (contextDefault : Option PubsubId) (callback : SubscriberId → Bool) :
    Listed (init contextDefault callback) fun _ => [] := by
  constructor <;> simp [init, Pubsubs.next]

section Walks

theorem next_assign : (w.assign p link q).next = link.assign q w.next := by
  cases link with
  | head => rfl
  | next l =>
    funext s
    by_cases h : s = l
    · subst h
      simp [Pubsubs.next, Pubsubs.assign, Pubsubs.setSubscriber, Link.assign]
    · simp [Pubsubs.next, Pubsubs.assign, Pubsubs.setSubscriber, Link.assign, h]

theorem heads_assign :
    (w.assign p link q).heads = Function.update w.heads p (link.assignHead q (w.heads p)) := by
  cases link with
  | head => rfl
  | next l => simp [Pubsubs.assign, Pubsubs.setSubscriber, Link.assignHead]

theorem endLink_eq (h : Chain w.next (w.heads p) (ys ++ zs)) (hn : zs.length < n) :
    w.endLink p n (Link.last ys) = some (Link.last (ys ++ zs)) := by
  induction n generalizing ys zs with
  | zero => omega
  | succ n ih =>
    rw [Pubsubs.endLink, Pubsubs.deref, h.deref_last]
    cases zs with
    | nil => simp
    | cons z zs =>
      have h' : Chain w.next (w.heads p) (ys ++ [z] ++ zs) := by simpa using h
      have ih := ih h' (by simpa using hn)
      rw [Link.last_concat] at ih
      simpa using ih

theorem linkTo_eq (h : Chain w.next (w.heads p) (ys ++ zs ++ s :: us)) (hn : zs.length < n) :
    w.linkTo p s n (Link.last ys) = some (some (Link.last (ys ++ zs))) := by
  induction n generalizing ys zs with
  | zero => omega
  | succ n ih =>
    have hd := (List.append_assoc ys zs _ ▸ h).deref_last
    rw [Pubsubs.linkTo, Pubsubs.deref, hd]
    cases zs with
    | nil => simp
    | cons z zs =>
      have h' : Chain w.next (w.heads p) (ys ++ [z] ++ zs ++ s :: us) := by simpa using h
      have hz : z ≠ s := by
        rintro rfl
        have hn := h'.nodup
        simp [List.nodup_append] at hn
      have ih := ih h' (by simpa using hn)
      rw [Link.last_concat] at ih
      simpa [hz] using ih

end Walks

section Lists

variable {w' : Pubsubs} {topic : Topic} {pubsub : Option PubsubId} {post : List SubscriberId}

/-- A subscriber of `p` is in no other list. -/
theorem Listed.not_mem {p' : PubsubId} (h : Listed w xs) (hs : s ∈ xs p) (hp : p' ≠ p) :
    s ∉ xs p' := fun hs' => by
  rw [h.mem] at hs hs'
  exact hp (Option.some.inj (hs'.symm.trans hs))

/-- Lists that only change at `p` stay lists elsewhere. -/
theorem Listed.chain_of_ne {p' : PubsubId} (h : Listed w xs) (hp : p' ≠ p)
    (hy : ∀ s ∈ ys, s ∈ xs p) : Chain ((Link.last ys).assign q w.next) (w.heads p') (xs p') :=
  (h.chain p').congr fun s hs =>
    (Link.assign_last_of_not_mem fun hm => h.not_mem (hy s hm) hp hs).symm

/-- The cleared link of one who does not subscribe stays cleared. -/
theorem Listed.next_of_free (h : Listed w xs) (hs : (w.subscribers s).pubsub = none)
    (hy : ∀ t ∈ ys, t ∈ xs p) : (Link.last ys).assign q w.next s = none := by
  rw [Link.assign_last_of_not_mem, (h.free s hs).1]
  intro hm
  have hp := (h.mem p s).mp (hy s hm)
  simp [hs] at hp

/-- The subscribers after `s` was stored at the end of the list of `p`. -/
def subscribed (w : Pubsubs) (link : Link SubscriberId) (s : SubscriberId) (p : PubsubId)
    (topic : Topic) : Pubsubs :=
  let w' := w.assign p link (some s)
  { w'.setSubscriber s { w'.subscribers s with topic := some topic, pubsub := some p } with
    subscriptions := w'.subscriptions + 1 }

/-- The subscribers after `s` was taken out of the list of `p`. -/
def unsubscribed (w : Pubsubs) (link : Link SubscriberId) (s : SubscriberId) (p : PubsubId) :
    Pubsubs :=
  let w' := w.assign p link (w.next s)
  w'.setSubscriber s { w'.subscribers s with next := none, topic := none, pubsub := none }

theorem subscribers_assign (s : SubscriberId) : (w.assign p link q).subscribers s =
    { w.subscribers s with next := (w.assign p link q).next s } := by
  cases link with
  | head => rfl
  | next l =>
    by_cases h : s = l
    · subst h
      simp [Pubsubs.next, Pubsubs.assign, Pubsubs.setSubscriber]
    · simp [Pubsubs.next, Pubsubs.assign, Pubsubs.setSubscriber, h]

theorem next_subscribed :
    (subscribed w link s p topic).next = link.assign (some s) w.next := by
  funext t
  rw [← next_assign (p := p)]
  by_cases h : t = s
  · subst h
    simp [subscribed, Pubsubs.next, Pubsubs.setSubscriber]
  · simp [subscribed, Pubsubs.next, Pubsubs.setSubscriber, h]

theorem heads_subscribed : (subscribed w link s p topic).heads =
    Function.update w.heads p (link.assignHead (some s) (w.heads p)) := heads_assign

theorem pubsub_subscribed (t : SubscriberId) :
    ((subscribed w link s p topic).subscribers t).pubsub =
    if t = s then some p else (w.subscribers t).pubsub := by
  by_cases h : t = s
  · simp [subscribed, Pubsubs.setSubscriber, h]
  · simp [subscribed, Pubsubs.setSubscriber, h, subscribers_assign]

theorem topic_subscribed (t : SubscriberId) : ((subscribed w link s p topic).subscribers t).topic =
    if t = s then some topic else (w.subscribers t).topic := by
  by_cases h : t = s
  · simp [subscribed, Pubsubs.setSubscriber, h]
  · simp [subscribed, Pubsubs.setSubscriber, h, subscribers_assign]

theorem next_unsubscribed : (unsubscribed w link s p).next =
    Function.update (link.assign (w.next s) w.next) s none := by
  funext t
  rw [← next_assign (p := p)]
  by_cases h : t = s
  · simp [unsubscribed, Pubsubs.next, Pubsubs.setSubscriber, h]
  · simp [unsubscribed, Pubsubs.next, Pubsubs.setSubscriber, h]

theorem heads_unsubscribed : (unsubscribed w link s p).heads =
    Function.update w.heads p (link.assignHead (w.next s) (w.heads p)) := heads_assign

theorem pubsub_unsubscribed (t : SubscriberId) : ((unsubscribed w link s p).subscribers t).pubsub =
    if t = s then none else (w.subscribers t).pubsub := by
  by_cases h : t = s
  · simp [unsubscribed, Pubsubs.setSubscriber, h]
  · simp [unsubscribed, Pubsubs.setSubscriber, h, subscribers_assign]

theorem topic_unsubscribed (t : SubscriberId) : ((unsubscribed w link s p).subscribers t).topic =
    if t = s then none else (w.subscribers t).topic := by
  by_cases h : t = s
  · simp [unsubscribed, Pubsubs.setSubscriber, h]
  · simp [unsubscribed, Pubsubs.setSubscriber, h, subscribers_assign]

theorem Listed.subscribed (h : Listed w xs) (hs : (w.subscribers s).pubsub = none) :
    Listed (subscribed w (Link.last (xs p)) s p topic) (Function.update xs p (xs p ++ [s])) := by
  have hout : ∀ p, s ∉ xs p := fun p hm => by simp [(h.mem p s).mp hm] at hs
  constructor
  case chain =>
    intro p'
    rw [next_subscribed, heads_subscribed]
    by_cases hp : p' = p
    · subst hp
      rw [Function.update_self, Function.update_self]
      exact (h.chain p').append (hout p') (h.free s hs).1
    · rw [Function.update_of_ne hp, Function.update_of_ne hp]
      exact h.chain_of_ne hp fun t ht => ht
  case mem =>
    intro p' t
    rw [pubsub_subscribed]
    by_cases hp : p' = p
    · subst hp
      rw [Function.update_self, List.mem_append, List.mem_singleton, h.mem]
      split <;> simp_all
    · rw [Function.update_of_ne hp, h.mem]
      split
      · next ht => simp [ht, hs, Ne.symm hp]
      · rfl
  case free =>
    intro t ht
    rw [pubsub_subscribed] at ht
    split at ht
    · cases ht
    · next hts =>
      rw [next_subscribed, topic_subscribed, if_neg hts]
      exact ⟨h.next_of_free ht fun _ hm => hm, (h.free t ht).2⟩
  case topic =>
    intro t ht
    rw [pubsub_subscribed] at ht
    rw [topic_subscribed]
    split
    · simp
    · next hts =>
      rw [if_neg hts] at ht
      exact h.topic t ht
  case bound =>
    intro p'
    change _ ≤ (w.assign p (Link.last (xs p)) (some s)).subscriptions + 1
    have hb : (w.assign p (Link.last (xs p)) (some s)).subscriptions = w.subscriptions := by
      cases Link.last (xs p) <;> rfl
    rw [hb]
    by_cases hp : p' = p
    · subst hp
      rw [Function.update_self, List.length_append]
      exact Nat.add_le_add_right (h.bound p') 1
    · rw [Function.update_of_ne hp]
      exact Nat.le_succ_of_le (h.bound p')

theorem Listed.unsubscribed (h : Listed w xs) (hx : xs p = ys ++ s :: post) :
    Listed (unsubscribed w (Link.last ys) s p) (Function.update xs p (ys ++ post)) := by
  have hmem : s ∈ xs p := by simp [hx]
  have hnodup := (h.chain p).nodup
  rw [hx] at hnodup
  have hs : s ∉ ys ++ post := by
    have := (List.nodup_middle.mp hnodup)
    exact (List.nodup_cons.mp this).1
  constructor
  case chain =>
    intro p'
    rw [next_unsubscribed, heads_unsubscribed]
    by_cases hp : p' = p
    · subst hp
      rw [Function.update_self, Function.update_self]
      exact (hx ▸ h.chain p').unlink.update hs
    · rw [Function.update_of_ne hp, Function.update_of_ne hp]
      exact (h.chain_of_ne hp fun t ht => by simp [hx, ht]).update (h.not_mem hmem hp)
  case mem =>
    intro p' t
    rw [pubsub_unsubscribed]
    by_cases hp : p' = p
    · subst hp
      rw [Function.update_self]
      split
      · next ht => simpa [ht] using hs
      · next ht =>
        rw [← h.mem, hx]
        simp [ht]
    · rw [Function.update_of_ne hp]
      split
      · next ht => simpa [ht] using h.not_mem hmem hp
      · exact h.mem p' t
  case free =>
    intro t ht
    rw [next_unsubscribed, topic_unsubscribed]
    split
    · next hts => exact ⟨by rw [hts, Function.update_self], rfl⟩
    · next hts =>
      rw [pubsub_unsubscribed, if_neg hts] at ht
      have hsub : ∀ t ∈ ys, t ∈ xs p := fun t hm => by simp [hx, hm]
      rw [Function.update_of_ne hts]
      exact ⟨h.next_of_free ht hsub, (h.free t ht).2⟩
  case topic =>
    intro t ht
    rw [pubsub_unsubscribed] at ht
    rw [topic_unsubscribed]
    split
    · next hts => simp [hts] at ht
    · next hts =>
      rw [if_neg hts] at ht
      exact h.topic t ht
  case bound =>
    intro p'
    change _ ≤ (w.assign p (Link.last ys) (w.next s)).subscriptions
    have hb : (w.assign p (Link.last ys) (w.next s)).subscriptions = w.subscriptions := by
      cases Link.last ys <;> rfl
    rw [hb]
    by_cases hp : p' = p
    · subst hp
      have hl := h.bound p'
      rw [hx] at hl
      rw [Function.update_self]
      simp at hl ⊢
      omega
    · rw [Function.update_of_ne hp]
      exact h.bound p'

end Lists

section Actions

variable {topic : Topic} {pubsub : Option PubsubId}

/-- What an action leaves alone. -/
structure SameCalls (w w' : Pubsubs) : Prop where
  calls : w'.calls = w.calls
  contextDefault : w'.contextDefault = w.contextDefault

theorem sameCalls_assign : SameCalls w (w.assign p link q) := by
  cases link <;> exact ⟨rfl, rfl⟩

/-- A subscriber that was free is now the last one of a publisher, or nothing happened. -/
theorem subscribe_wp (h : Listed w xs) : wp (fun _ => False) (subscribe s pubsub (some topic))
    (fun ok w' => SameCalls w w' ∧
      ((ok = false ∧ w' = w ∧
        ((pubsub <|> w.contextDefault) = none ∨ (w.subscribers s).pubsub ≠ none)) ∨
      (ok = true ∧ (w.subscribers s).pubsub = none ∧
        ∃ p, (pubsub <|> w.contextDefault) = some p ∧
          Listed w' (Function.update xs p (xs p ++ [s]))))) w := by
  unfold subscribe
  rw [wp_bind, wp_get, if_neg (by simp)]
  cases pubsub <|> w.contextDefault with
  | none => exact ⟨⟨rfl, rfl⟩, Or.inl ⟨rfl, rfl, Or.inl rfl⟩⟩
  | some p =>
    dsimp only
    rw [wp_ite]
    refine ⟨fun hbusy => ⟨⟨rfl, rfl⟩, Or.inl ⟨rfl, rfl, Or.inr fun hs => ?_⟩⟩, fun hfree => ?_⟩
    · exact hbusy.elim (fun ht => ht (h.free s hs).2) fun hp => hp hs
    have hs : (w.subscribers s).pubsub = none := not_not.mp (not_or.mp hfree).2
    have hnext : (w.subscribers s).next = none := (h.free s hs).1
    have hend : w.endLink p (w.subscriptions + 1) (Link.last []) = some (Link.last ([] ++ xs p)) :=
      endLink_eq (h.chain p) (Nat.lt_succ_of_le (h.bound p))
    rw [Link.last_nil, List.nil_append] at hend
    rw [if_neg (by simp [hnext]), hend]
    have hsame : SameCalls w (w.assign p (Link.last (xs p)) (some s)) := sameCalls_assign
    exact ⟨⟨hsame.calls, hsame.contextDefault⟩, Or.inr ⟨rfl, hs, p, rfl, h.subscribed hs⟩⟩

/-- A subscriber leaves the list that it is in. -/
theorem unsubscribe_wp (h : Listed w xs) : wp (fun _ => False) (unsubscribe s)
    (fun ok w' => SameCalls w w' ∧
      ((ok = false ∧ w' = w ∧ (w.subscribers s).pubsub = none) ∨
      (ok = true ∧ (w'.subscribers s).pubsub = none ∧ w'.next s = none ∧
        ∃ p ys zs, xs p = ys ++ s :: zs ∧ Listed w' (Function.update xs p (ys ++ zs))))) w := by
  unfold unsubscribe
  rw [wp_bind, wp_get]
  dsimp only
  cases hp : (w.subscribers s).pubsub with
  | none =>
    simp only [(h.free s hp).2]
    exact ⟨⟨rfl, rfl⟩, Or.inl ⟨rfl, rfl, trivial⟩⟩
  | some p =>
    obtain ⟨topic, ht⟩ := Option.ne_none_iff_exists'.mp (h.topic s (by simp [hp]))
    obtain ⟨ys, zs, hx⟩ := List.append_of_mem ((h.mem p s).mpr hp)
    have hlen : ys.length < w.subscriptions + 1 := by
      have hb := h.bound p
      rw [hx, List.length_append] at hb
      omega
    have hlink : w.linkTo p s (w.subscriptions + 1) (Link.last []) =
        some (some (Link.last ([] ++ ys))) := linkTo_eq (hx ▸ h.chain p) hlen
    rw [Link.last_nil, List.nil_append] at hlink
    simp only [ht, hlink]
    have hsame : SameCalls w (w.assign p (Link.last ys) (w.next s)) := sameCalls_assign
    have hfree : ((unsubscribed w (Link.last ys) s p).subscribers s).pubsub = none := by
      rw [pubsub_unsubscribed, if_pos rfl]
    refine ⟨⟨hsame.calls, hsame.contextDefault⟩, Or.inr ⟨rfl, hfree, ?_, p, ys, zs, hx,
      h.unsubscribed hx⟩⟩
    change (unsubscribed w (Link.last ys) s p).next s = none
    rw [next_unsubscribed, Function.update_self]

end Actions

end FrameTransporter.Pubsub
