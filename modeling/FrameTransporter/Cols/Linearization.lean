import FrameTransporter.Cols.Stack
import FrameTransporter.Intrusive.Chain

/-! # What the lock-free stack contains

The nodes behind the head are those of the history of the stack, at every step of every
interleaving. A thread whose copy of the head is out of date has an older counter, so
its compare-and-swap fails, whatever it has read from a node in the meantime.
-/

namespace FrameTransporter.Stack

open Histories Intrusive

namespace State

section Knowledge

variable {T : Type} {s s' : State T} {t t' : T} {orig : Head} {node n : NodeId}
  {weak : Bool}

/-- A copy of the head, which is the head as long as the counter has not advanced. -/
def Seen (s : State T) (orig : Head) : Prop :=
  orig.aba ≤ s.head.aba ∧ (orig.aba = s.head.aba → orig = s.head)

/-- What a thread knows about the stack where it is in a call. -/
def Known (s : State T) (t : T) : Pc → Prop
  | .idle => True
  | .pushLoad node => s.owner node = some t
  | .pushLoop node orig => s.owner node = some t ∧ s.Seen orig
  | .pushSwap node orig next =>
    s.owner node = some t ∧ s.Seen orig ∧ next = ⟨orig.aba + 1, some node⟩ ∧
      s.next node = orig.node
  | .pushSize => True
  | .popLoad => True
  | .popLoop orig => s.Seen orig ∧ ∀ node, orig.node = some node → s.allocated node = true
  | .popSwap node orig next =>
    s.Seen orig ∧ orig.node = some node ∧ next.aba = orig.aba + 1 ∧
      (orig = s.head → next.node = s.next node)
  | .popSize node => Took t node s.history

/-- The chain from the head is the stack of the history, and the other nodes have an owner. -/
structure Inv (s : State T) : Prop where
  legal : Legal s.history
  chain : Chain s.next s.head.node (contents s.history)
  placed : ∀ n, s.allocated n = true ↔ n ∈ contents s.history ∨ ∃ t, s.owner n = some t
  unowned : ∀ n ∈ contents s.history, s.owner n = none
  known : ∀ t, s.Known t (s.pc t)

/-- What a step of one thread leaves to the others. -/
structure Aside (s : State T) (t : T) (s' : State T) : Prop where
  pc : ∀ t', t' ≠ t → s'.pc t' = s.pc t'
  head : s'.head = s.head ∨ s.head.aba < s'.head.aba
  owner : ∀ n t', t' ≠ t → s.owner n = some t' → s'.owner n = some t'
  next : ∀ n, s.allocated n = true → s.owner n ≠ some t → s'.next n = s.next n
  allocated : ∀ n t', (s.pc t').popping = true → s.allocated n = true → s'.allocated n = true
  history : ∃ es, s'.history = es ++ s.history ∧ ∀ e ∈ es, e.thread = t

theorem seen_head : s.Seen s.head := ⟨UInt64.le_refl _, fun _ => rfl⟩

theorem Seen.advance (h : s.Seen orig) (hh : s'.head = s.head ∨ s.head.aba < s'.head.aba) :
    s'.Seen orig := by
  rcases hh with hh | hh
  · rw [Seen, hh]
    exact h
  · have hlt := UInt64.lt_of_le_of_lt h.1 hh
    exact ⟨UInt64.le_of_lt hlt, fun he => absurd (he ▸ hlt) (UInt64.lt_irrefl _)⟩

/-- An old copy is the head only if the head has not changed. -/
theorem Seen.current (h : s.Seen orig) (hh : s'.head = s.head ∨ s.head.aba < s'.head.aba)
    (ho : orig = s'.head) : s'.head = s.head := by
  rcases hh with hh | hh
  · exact hh
  · have hlt := UInt64.lt_of_le_of_lt h.1 hh
    rw [ho] at hlt
    exact absurd hlt (UInt64.lt_irrefl _)

theorem Inv.head_mem (h : s.Inv) (hn : s.head.node = some n) : n ∈ contents s.history := by
  have hhead := h.chain.start_eq
  rw [hn] at hhead
  exact List.mem_of_head? hhead.symm

/-- What a thread knows stays true in the steps of the others. -/
theorem Inv.aside (h : s.Inv) (ha : s.Aside t s') (ht : t' ≠ t) : s'.Known t' (s'.pc t') := by
  have hk := h.known t'
  have hlive := fun n => ha.allocated n t'
  rw [ha.pc t' ht]
  cases hpc : s.pc t' with
  | idle => trivial
  | pushSize => trivial
  | popLoad => trivial
  | pushLoad node =>
    rw [hpc] at hk
    exact ha.owner node t' ht hk
  | pushLoop node orig =>
    rw [hpc] at hk
    exact ⟨ha.owner node t' ht hk.1, hk.2.advance ha.head⟩
  | pushSwap node orig next =>
    rw [hpc] at hk
    obtain ⟨hown, hseen, hnext, hlink⟩ := hk
    refine ⟨ha.owner node t' ht hown, hseen.advance ha.head, hnext, ?_⟩
    rw [ha.next node ((h.placed node).mpr (.inr ⟨t', hown⟩)), hlink]
    rw [hown]
    exact fun he => ht (Option.some.inj he)
  | popLoop orig =>
    rw [hpc] at hk hlive
    exact ⟨hk.1.advance ha.head, fun node hn => hlive node rfl (hk.2 node hn)⟩
  | popSwap node orig next =>
    rw [hpc] at hk
    obtain ⟨hseen, hn, hnext, hlink⟩ := hk
    refine ⟨hseen.advance ha.head, hn, hnext, fun ho => ?_⟩
    -- the counter tells that the node is still on top, where no other thread writes its link
    have hcur := hseen.current ha.head ho
    rw [hcur] at ho
    have hmem := h.head_mem (ho ▸ hn)
    rw [ha.next node ((h.placed node).mpr (.inl hmem)), hlink ho]
    rw [h.unowned node hmem]
    exact nofun
  | popSize node =>
    rw [hpc] at hk
    obtain ⟨es, hes, hthread⟩ := ha.history
    rw [Known, hes]
    exact Took.append hk fun e he => hthread e he ▸ ht.symm

/-- A node with an owner is not on the stack. -/
theorem Inv.not_mem (h : s.Inv) (hown : s.owner node = some t) : node ∉ contents s.history := by
  intro hmem
  rw [h.unowned node hmem] at hown
  cases hown

theorem of_swaps (h : s.swaps orig weak = true) : s.head = orig := by
  rw [swaps, Bool.and_eq_true] at h
  exact of_decide_eq_true h.1

/-- The node that a pop loads with the head is allocated. -/
theorem Inv.known_popLoop (h : s.Inv) : s.Known t (.popLoop s.head) :=
  ⟨seen_head, fun node hn => (h.placed node).mpr (.inl (h.head_mem hn))⟩

/-- The size is not looked at. -/
theorem Inv.setSize (h : s.Inv) (size : UInt64) : Inv { s with size } := by
  refine ⟨h.legal, h.chain, h.placed, h.unowned, fun t => ?_⟩
  have hk := h.known t
  change Known _ t (s.pc t)
  cases hpc : s.pc t <;> rw [hpc] at hk <;> exact hk

theorem inv_init (next : NodeId → Option NodeId) : (init next : State T).Inv where
  legal := .nil
  chain := rfl
  placed n := by simp [init]
  unowned := nofun
  known _ := trivial

end Knowledge

section Steps

variable {T : Type} [DecidableEq T] {s s' : State T} {t t' : T} {pc pc' : Pc} {orig next : Head}
  {node : NodeId} {weak : Bool} {r : Option NodeId}

@[simp] theorem pc_goto : (s.goto t pc).pc t = pc := by simp [goto]

@[simp] theorem pc_goto_of_ne (ht : t' ≠ t) : (s.goto t pc).pc t' = s.pc t' := by
  simp [goto, ht]

theorem known_goto : (s.goto t pc).Known t' pc' ↔ s.Known t' pc' := by
  cases pc' <;> exact Iff.rfl

theorem Inv.of_aside (h : s.Inv) (ha : s.Aside t s') (hlegal : Legal s'.history)
    (hchain : Chain s'.next s'.head.node (contents s'.history))
    (hplaced : ∀ n, s'.allocated n = true ↔ n ∈ contents s'.history ∨ ∃ t, s'.owner n = some t)
    (hunowned : ∀ n ∈ contents s'.history, s'.owner n = none) (hk : s'.Known t (s'.pc t)) :
    s'.Inv := by
  refine ⟨hlegal, hchain, hplaced, hunowned, fun t' => ?_⟩
  by_cases ht : t' = t
  · exact ht ▸ hk
  · exact h.aside ha ht

/-- A thread goes on without changing anything that is shared. -/
theorem Inv.goto (h : s.Inv) (hk : s.Known t pc) : (s.goto t pc).Inv := by
  have ha : s.Aside t (s.goto t pc) := by
    constructor
    · exact fun t' ht => pc_goto_of_ne ht
    · exact .inl rfl
    · exact fun _ _ _ ho => ho
    · exact fun _ _ _ => rfl
    · exact fun _ _ _ hn => hn
    · exact ⟨[], rfl, nofun⟩
  refine h.of_aside ha h.legal h.chain h.placed h.unowned ?_
  rwa [pc_goto, known_goto]

/-- The link of a node is written while it has an owner. -/
theorem Inv.setNext (h : s.Inv) (hown : s.owner node = some t) (hpc : s.pc t = .pushLoop node orig)
    (q : Option NodeId) : (s.setNext node q).Inv := by
  have ha : s.Aside t (s.setNext node q) := by
    constructor
    · exact fun _ _ => rfl
    · exact .inl rfl
    · exact fun _ _ _ ho => ho
    · intro n _ hn
      refine Function.update_of_ne ?_ _ _
      rintro rfl
      exact hn hown
    · exact fun _ _ _ hn => hn
    · exact ⟨[], rfl, nofun⟩
  refine h.of_aside ha h.legal (h.chain.update (h.not_mem hown)) h.placed h.unowned ?_
  have hk := h.known t
  change Known _ t (s.pc t)
  rw [hpc] at hk ⊢
  exact hk

/-- A pop returns. -/
theorem Inv.ret (h : s.Inv) (hr : ∀ n, r = some n → Took t n s.history) :
    ((s.log (.ret t r)).goto t .idle).Inv := by
  have ha : s.Aside t ((s.log (.ret t r)).goto t .idle) := by
    constructor
    · exact fun t' ht => pc_goto_of_ne ht
    · exact .inl rfl
    · exact fun _ _ _ ho => ho
    · exact fun _ _ _ => rfl
    · exact fun _ _ _ hn => hn
    · exact ⟨[.ret t r], rfl, by simp [Event.thread]⟩
  refine h.of_aside ha (h.legal.ret hr) h.chain h.placed h.unowned ?_
  rw [pc_goto, known_goto]
  trivial

theorem lt_add_one_of_le {a : UInt64} (h : a ≤ a + 1) : a < a + 1 := by
  refine UInt64.lt_of_le_of_ne h fun he => ?_
  simp at he

/-- A push takes effect. -/
theorem Inv.push (h : s.Inv) (hpc : s.pc t = .pushSwap node orig next) (ho : s.head = orig)
    (haba : s.head.aba ≤ next.aba) :
    ((({ s with head := next }.setOwner node none).log (.push t node)).goto t .pushSize).Inv := by
  have hk := h.known t
  rw [hpc] at hk
  obtain ⟨hown, -, rfl, hlink⟩ := hk
  subst ho
  have hout := h.not_mem hown
  have hother : ∀ n, n ≠ node → Function.update s.owner node none n = s.owner n := fun n hn =>
    Function.update_of_ne hn _ _
  have ha : s.Aside t ((({ s with head := ⟨s.head.aba + 1, some node⟩ }.setOwner node none).log
      (.push t node)).goto t .pushSize) := by
    constructor
    · exact fun t' ht => pc_goto_of_ne ht
    · exact .inr (lt_add_one_of_le haba)
    · intro n t' ht hn
      refine (hother n ?_).trans hn
      rintro rfl
      exact ht (Option.some.inj (hn.symm.trans hown))
    · exact fun _ _ _ => rfl
    · exact fun _ _ _ hn => hn
    · exact ⟨[.push t node], rfl, by simp [Event.thread]⟩
  refine h.of_aside ha (h.legal.push hout) ⟨rfl, ?_⟩ (fun n => ?_) (fun n hn => ?_) ?_
  · change Chain s.next (s.next node) (contents s.history)
    rw [hlink]
    exact h.chain
  · change s.allocated n = true ↔ n ∈ node :: contents s.history ∨
      ∃ t, Function.update s.owner node none n = some t
    rw [h.placed, List.mem_cons]
    by_cases hn : n = node
    · subst hn
      exact iff_of_true (.inr ⟨t, hown⟩) (.inl (.inl rfl))
    · rw [hother n hn, or_iff_right hn]
  · change Function.update s.owner node none n = none
    rcases List.mem_cons.mp hn with rfl | hn
    · exact Function.update_self _ _ _
    · rw [hother n (by rintro rfl; exact hout hn)]
      exact h.unowned n hn
  · rw [pc_goto, known_goto]
    trivial

/-- A pop takes effect. -/
theorem Inv.pop (h : s.Inv) (hpc : s.pc t = .popSwap node orig next) (ho : s.head = orig)
    (haba : s.head.aba ≤ next.aba) :
    ((({ s with head := next }.setOwner node (some t)).log (.pop t node)).goto t
      (.popSize node)).Inv := by
  have hk := h.known t
  rw [hpc] at hk
  obtain ⟨-, hn, hnext, hlink⟩ := hk
  subst ho
  have hmem := h.head_mem hn
  have hfree := h.unowned node hmem
  have hchain := h.chain
  rw [hn] at hchain
  obtain ⟨ns, hns, hrest⟩ := hchain.exists_cons
  have hnodup := h.legal.nodup
  rw [hns] at hnodup
  have hout : node ∉ ns := (List.nodup_cons.mp hnodup).1
  have hother : ∀ n, n ≠ node → Function.update s.owner node (some t) n = s.owner n := fun n hn =>
    Function.update_of_ne hn _ _
  have hcontents : contents (.pop t node :: s.history) = ns := by
    rw [contents_pop, hns, List.tail_cons]
  have ha : s.Aside t ((({ s with head := next }.setOwner node (some t)).log
      (.pop t node)).goto t (.popSize node)) := by
    constructor
    · exact fun t' ht => pc_goto_of_ne ht
    · rw [hnext] at haba
      exact .inr (hnext ▸ lt_add_one_of_le haba)
    · intro n t' ht hown
      refine (hother n ?_).trans hown
      rintro rfl
      rw [hfree] at hown
      cases hown
    · exact fun _ _ _ => rfl
    · exact fun _ _ _ hn => hn
    · exact ⟨[.pop t node], rfl, by simp [Event.thread]⟩
  refine h.of_aside ha (h.legal.pop (by rw [hns, List.head?_cons])) ?_ (fun n => ?_)
    (fun n hin => ?_) ?_
  · change Chain s.next next.node (contents (.pop t node :: s.history))
    rw [hcontents, hlink rfl]
    exact hrest
  · change s.allocated n = true ↔ n ∈ contents (.pop t node :: s.history) ∨
      ∃ t', Function.update s.owner node (some t) n = some t'
    rw [h.placed, hcontents, hns, List.mem_cons]
    by_cases hne : n = node
    · subst hne
      exact iff_of_true (.inl (.inl rfl)) (.inr ⟨t, Function.update_self _ _ _⟩)
    · rw [hother n hne, or_iff_right hne]
  · change n ∈ contents (.pop t node :: s.history) at hin
    change Function.update s.owner node (some t) n = none
    rw [hcontents] at hin
    rw [hother n (by rintro rfl; exact hout hin)]
    exact h.unowned n (hns ▸ List.mem_cons_of_mem _ hin)
  · rw [pc_goto, known_goto]
    exact took_pop

/-- Every atomic step of a thread keeps the stack in order. -/
theorem Inv.run (h : s.Inv) (haba : s.head.aba ≤ (s.run t weak).head.aba) :
    (s.run t weak).Inv := by
  have hk := h.known t
  unfold State.run at haba ⊢
  cases hpc : s.pc t with
  | idle => exact h
  | pushLoad node =>
    rw [hpc] at hk
    exact h.goto ⟨hk, seen_head⟩
  | pushLoop node orig =>
    rw [hpc] at hk
    exact (h.setNext hk.1 hpc orig.node).goto ⟨hk.1, hk.2, rfl, Function.update_self _ _ _⟩
  | pushSwap node orig next =>
    rw [hpc] at hk haba
    dsimp only at haba ⊢
    split
    · next hs =>
      rw [if_pos hs] at haba
      exact h.push hpc (of_swaps hs) haba
    · exact h.goto ⟨hk.1, seen_head⟩
  | pushSize => exact (h.setSize _).goto trivial
  | popLoad => exact h.goto h.known_popLoop
  | popLoop orig =>
    rw [hpc] at hk
    dsimp only
    cases hn : orig.node with
    | none => exact h.ret nofun
    | some node => exact h.goto ⟨hk.1, hn, rfl, fun _ => rfl⟩
  | popSwap node orig next =>
    rw [hpc] at hk haba
    dsimp only at haba ⊢
    split
    · next hs =>
      rw [if_pos hs] at haba
      exact h.pop hpc (of_swaps hs) haba
    · exact h.goto h.known_popLoop
  | popSize node =>
    rw [hpc] at hk
    refine (h.setSize _).ret ?_
    rintro n ⟨⟩
    exact hk

/-- A new node has an owner. -/
theorem Inv.nodeNew (h : s.Inv) (hpc : s.pc t = .idle) (hnew : s.allocated node = false) :
    (s.nodeNew t node).Inv := by
  have hout : node ∉ contents s.history ∧ ∀ t, s.owner node ≠ some t := by
    have hn := (h.placed node).not.mp (by simp [hnew])
    exact ⟨fun hm => hn (.inl hm), fun t ht => hn (.inr ⟨t, ht⟩)⟩
  have hne : ∀ n, s.allocated n = true → n ≠ node := by
    rintro n hn rfl
    rw [hnew] at hn
    cases hn
  have ha : s.Aside t (s.nodeNew t node) := by
    constructor
    · exact fun _ _ => rfl
    · exact .inl rfl
    · intro n t' _ hown
      refine (Function.update_of_ne ?_ _ _).trans hown
      rintro rfl
      exact hout.2 t' hown
    · exact fun n hn _ => Function.update_of_ne (hne n hn) _ _
    · exact fun n _ _ hn => (Function.update_of_ne (hne n hn) _ _).trans hn
    · exact ⟨[], rfl, nofun⟩
  refine h.of_aside ha h.legal (h.chain.update hout.1) (fun n => ?_) (fun n hn => ?_) ?_
  · change Function.update s.allocated node true n = true ↔ n ∈ contents s.history ∨
      ∃ t', Function.update s.owner node (some t) n = some t'
    by_cases hn : n = node
    · subst hn
      exact iff_of_true (Function.update_self _ _ _) (.inr ⟨t, Function.update_self _ _ _⟩)
    · rw [Function.update_of_ne hn, Function.update_of_ne hn]
      exact h.placed n
  · refine (Function.update_of_ne ?_ _ _).trans (h.unowned n hn)
    rintro rfl
    exact hout.1 hn
  · change Known _ t (s.pc t)
    rw [hpc]
    trivial

/-- A node is freed by its owner, while nobody can be reading its link. -/
theorem Inv.nodeDel (h : s.Inv) (hpc : s.pc t = .idle) (hown : s.owner node = some t)
    (hpop : ∀ t', (s.pc t').popping = false) : (s.nodeDel node).Inv := by
  have hout := h.not_mem hown
  have ha : s.Aside t (s.nodeDel node) := by
    constructor
    · exact fun _ _ => rfl
    · exact .inl rfl
    · intro n t' ht hn
      refine (Function.update_of_ne ?_ _ _).trans hn
      rintro rfl
      exact ht (Option.some.inj (hn.symm.trans hown))
    · exact fun _ _ _ => rfl
    · intro n t' hp
      rw [hpop t'] at hp
      cases hp
    · exact ⟨[], rfl, nofun⟩
  refine h.of_aside ha h.legal h.chain (fun n => ?_) (fun n hn => ?_) ?_
  · change Function.update s.allocated node false n = true ↔ n ∈ contents s.history ∨
      ∃ t', Function.update s.owner node none n = some t'
    by_cases hn : n = node
    · subst hn
      simp [hout]
    · rw [Function.update_of_ne hn, Function.update_of_ne hn]
      exact h.placed n
  · refine (Function.update_of_ne ?_ _ _).trans (h.unowned n hn)
    rintro rfl
    exact hout hn
  · change Known _ t (s.pc t)
    rw [hpc]
    trivial

/-- A node is handed from its owner to another thread. -/
theorem Inv.hand (h : s.Inv) (hpc : s.pc t = .idle) (hown : s.owner node = some t) (t' : T) :
    (s.setOwner node (some t')).Inv := by
  have hout := h.not_mem hown
  have ha : s.Aside t (s.setOwner node (some t')) := by
    constructor
    · exact fun _ _ => rfl
    · exact .inl rfl
    · intro n u hu hn
      refine (Function.update_of_ne ?_ _ _).trans hn
      rintro rfl
      exact hu (Option.some.inj (hn.symm.trans hown))
    · exact fun _ _ _ => rfl
    · exact fun _ _ _ hn => hn
    · exact ⟨[], rfl, nofun⟩
  refine h.of_aside ha h.legal h.chain (fun n => ?_) (fun n hn => ?_) ?_
  · change s.allocated n = true ↔ n ∈ contents s.history ∨
      ∃ u, Function.update s.owner node (some t') n = some u
    by_cases hn : n = node
    · subst hn
      exact iff_of_true ((h.placed n).mpr (.inr ⟨t, hown⟩)) (.inr ⟨t', Function.update_self _ _ _⟩)
    · rw [Function.update_of_ne hn]
      exact h.placed n
  · refine (Function.update_of_ne ?_ _ _).trans (h.unowned n hn)
    rintro rfl
    exact hout hn
  · change Known _ t (s.pc t)
    rw [hpc]
    trivial

theorem Inv.step (h : s.Inv) (hs : Step s s') (haba : s.head.aba ≤ s'.head.aba) : s'.Inv := by
  cases hs with
  | nodeNew t node hpc hnew => exact h.nodeNew hpc hnew
  | nodeDel t node hpc hown hpop => exact h.nodeDel hpc hown hpop
  | hand t t' node hpc hown => exact h.hand hpc hown t'
  | push t node hpc hown => exact h.goto hown
  | pop t hpc => exact h.goto trivial
  | run t weak => exact h.run haba

/-- What a step adds to the history, and when a pop takes effect. -/
theorem run_history (s : State T) (t : T) (weak : Bool) :
    (s.run t weak).history = s.history ∨
      ∃ e, (s.run t weak).history = e :: s.history ∧ ∀ t' node, e = .pop t' node →
        t' = t ∧ ∃ next, s.pc t = .popSwap node s.head next := by
  unfold State.run
  cases hpc : s.pc t with
  | idle => exact .inl rfl
  | pushLoad node => exact .inl rfl
  | pushLoop node orig => exact .inl rfl
  | pushSwap node orig next =>
    dsimp only
    split
    · exact .inr ⟨.push t node, rfl, nofun⟩
    · exact .inl rfl
  | pushSize => exact .inl rfl
  | popLoad => exact .inl rfl
  | popLoop orig =>
    dsimp only
    cases orig.node with
    | none => exact .inr ⟨.ret t none, rfl, nofun⟩
    | some node => exact .inl rfl
  | popSwap node orig next =>
    dsimp only
    split
    · next hs =>
      refine .inr ⟨.pop t node, rfl, ?_⟩
      rintro _ _ ⟨⟩
      exact ⟨rfl, next, by rw [of_swaps hs]⟩
    · exact .inl rfl
  | popSize node => exact .inr ⟨.ret t (some node), rfl, nofun⟩

end Steps

end State

section Integrity

variable {T : Type} [DecidableEq T] {s s' : State T} {t : T} {n : NodeId}
  {es fs : List (Event T NodeId)}

theorem Reached.inv (h : Reached s) : s.Inv := by
  induction h with
  | init next => exact State.inv_init next
  | step _ hstep haba ih => exact ih.step hstep haba

/-- The step of a thread in which its pop takes effect. -/
def Pops (s : State T) (t : T) (n : NodeId) : Prop :=
  s.head.node = some n ∧ ∃ weak, (s.run t weak).history = .pop t n :: s.history

/-- A step either leaves the history, or it is a step of a thread that adds an event. -/
theorem Step.history (h : Reached s) (hs : Step s s') : s'.history = s.history ∨
    ∃ e, s'.history = e :: s.history ∧ ∀ t n, e = .pop t n → Pops s t n := by
  cases hs with
  | nodeNew | nodeDel | hand | push | pop => exact .inl rfl
  | run t weak =>
    refine (s.run_history t weak).imp id ?_
    rintro ⟨e, he, hpop⟩
    refine ⟨e, he, ?_⟩
    rintro t' n rfl
    obtain ⟨rfl, next, hpc⟩ := hpop t' n rfl
    have hk := h.inv.known t'
    rw [hpc] at hk
    exact ⟨hk.2.1, weak, he⟩

/-- Each pop in the history took effect in a state in which its node was on top. -/
theorem Reached.popped (h : Reached s) (hh : s.history = es ++ .pop t n :: fs) :
    ∃ s₀, Reached s₀ ∧ s₀.history = fs ∧ Pops s₀ t n := by
  induction h generalizing es with
  | init next =>
    have hnil : [] = es ++ .pop t n :: fs := hh
    simp at hnil
  | @step s s' hs hstep haba ih =>
    rcases hstep.history hs with hsame | ⟨e, he, hpop⟩
    · exact ih (hsame ▸ hh)
    · rw [he] at hh
      cases es with
      | nil =>
        obtain ⟨rfl, rfl⟩ := List.cons.inj hh
        exact ⟨s, hs, rfl, hpop t n rfl⟩
      | cons f es => exact ih (List.cons.inj hh).2

/-- The stack has neither lost a node nor handed one to two threads. -/
structure Intact (s : State T) : Prop where
  chain : Chain s.next s.head.node (contents s.history)
  nodup : (contents s.history).Nodup
  outstanding : ∀ n, n ∈ contents s.history ↔ Outstanding s.history n
  /-- No node is lost. -/
  placed : ∀ n, s.allocated n = true ↔ n ∈ contents s.history ∨ ∃ t, s.owner n = some t
  unowned : ∀ n ∈ contents s.history, s.owner n = none
  /-- A call returns the node of the thread's last pop, which was on top when it took effect. -/
  returned : ∀ es fs t n, s.history = es ++ .ret t (some n) :: fs → Took t n fs
  popped : ∀ es fs t n, s.history = es ++ .pop t n :: fs →
    (contents fs).head? = some n ∧ ∃ s₀, Reached s₀ ∧ s₀.history = fs ∧ Pops s₀ t n
  /-- A node that is popped twice was pushed in between. -/
  pushed : ∀ es fs gs t t' n, s.history = es ++ .pop t n :: (fs ++ .pop t' n :: gs) →
    ∃ t'', .push t'' n ∈ fs
  /-- A pop reads the link of an allocated node. -/
  allocated : ∀ t orig n, s.pc t = .popLoop orig → orig.node = some n → s.allocated n = true

/-- The stack stays intact in every interleaving of the atomic steps of any number of threads. -/
theorem stack_intact (h : Reached s) : Intact s := by
  have hinv := h.inv
  constructor
  case chain => exact hinv.chain
  case nodup => exact hinv.legal.nodup
  case outstanding => exact fun n => hinv.legal.mem_contents
  case placed => exact hinv.placed
  case unowned => exact hinv.unowned
  case returned =>
    intro es fs t n hh
    exact (hh ▸ hinv.legal).suffix.returns
  case popped =>
    intro es fs t n hh
    exact ⟨(hh ▸ hinv.legal).suffix.pop_top, h.popped hh⟩
  case pushed =>
    intro es fs gs t t' n hh
    exact Legal.push_between (hh ▸ hinv.legal).suffix
  case allocated =>
    intro t orig n hpc hn
    have hk := hinv.known t
    rw [hpc] at hk
    exact hk.2 n hn

/-- One thread pushes a node, and another one pops it. -/
theorem stack_intact_popped : ∃ s : State Bool, Reached s ∧
    s.history = [.ret true (some 5), .pop true 5, .push false 5] ∧ Intact s := by
  have h0 : Reached (init fun _ => none : State Bool) := .init _
  have h1 := h0.step (.nodeNew false 5 rfl rfl) (by decide)
  have h2 := h1.step (.push false 5 rfl rfl) (by decide)
  have h3 := h2.step (.run false false) (by decide)
  have h4 := h3.step (.pop true rfl) (by decide)
  have h5 := h4.step (.run false false) (by decide)
  have h6 := h5.step (.run false false) (by decide)
  have h7 := h6.step (.run true false) (by decide)
  have h8 := h7.step (.run true false) (by decide)
  have h9 := h8.step (.run true false) (by decide)
  have h10 := h9.step (.run true false) (by decide)
  exact ⟨_, h10, rfl, stack_intact h10⟩

end Integrity

end FrameTransporter.Stack
