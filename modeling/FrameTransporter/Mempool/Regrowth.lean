import FrameTransporter.Mempool.Ownership

/-! # Growing again

The default allocator gives a pool a low-memory zone for good and a high-memory
zone that a heartbeat may release. When the high-memory zone is mapped, the pool
notes that it has its last zone. It never takes this note back, so once the
zone was released the pool runs out of frames when the low-memory zone does.
-/

namespace FrameTransporter

open Hoare

namespace Pool

/-- The zones of `ft_pool_alloc_default`, in the order in which it maps them. -/
def lowMemory : NewZone := ⟨16, Nat.succ_pos _, false, false⟩

def highMemory : NewZone := ⟨2045, Nat.succ_pos _, true, true⟩

/-- `ft_pool_alloc_default`, where `mmap` tells whether `mmap` succeeds. -/
def allocDefault (mmap : Bool) (p : Pool) : Option NewZone :=
  match p.zones with
  | [] => if mmap then some lowMemory else none
  | [_] => if mmap then some highMemory else none
  | _ => none

/-- What users and the event loop do with a pool that has the default allocator. -/
inductive DefaultOp
  | borrow (mmap : Bool) (type : FrameType) (file : String) (line : ℕ)
  | frameReturn (f : FrameId)
  | heartbeat (now timeout : ℚ)
  | setNext (f : FrameId) (next : Option FrameId)

def DefaultOp.op (p : Pool) : DefaultOp → Op
  | .borrow mmap type file line => .borrow (allocDefault mmap p) type file line
  | .frameReturn f => .frameReturn f
  | .heartbeat now timeout => .heartbeat now timeout
  | .setNext f next => .setNext f next

def runDefault (ops : List DefaultOp) : PoolM Unit := forM ops fun c => do
  let p ← get
  exec (c.op p)

variable {p q : Pool} {z : Zone} {mmap : Bool} {type : FrameType} {file : String} {line : ℕ}

/-- Every frame of the low-memory and of the high-memory zone is in use. -/
def Exhausted (p : Pool) : Prop :=
  ∃ low high, p.zones = [low, high] ∧ low.framesTotal = lowMemory.frameCount ∧
    high.framesTotal = highMemory.frameCount ∧ ∀ z ∈ p.zones, ∀ f ∈ z.frames, f ∈ p.outstanding

/-- A borrow asks the allocator for a zone, the allocator calls `mmap`, and that fails. -/
def MmapFails (mmap : Bool) (p : Pool) : Prop :=
  (∀ z ∈ p.zones, z.availableFrames = none) ∧ p.lastZone = false ∧ p.zones.length < 2 ∧
    mmap = false

/-- A borrow answers null only if no frame is left or an `mmap` that it made failed. -/
def Regrows (p : Pool) : Prop :=
  ∀ mmap type file line, type ≠ .free → line ≠ 0 →
    wp (fun _ => False) (borrowReal (allocDefault mmap p) type file line)
      (fun r _ => r = none → Exhausted p ∨ MmapFails mmap p) p

/-- The high-memory zone was released, and the low-memory zone has no frame left. -/
def Stuck (p : Pool) : Prop :=
  p.lastZone = true ∧ p.zones.length = 1 ∧ ∀ z ∈ p.zones, z.availableFrames = none

/-- The zones by their size and by whether they may be released. -/
def kinds (p : Pool) : List (ℕ × Bool) := p.zones.map fun z => (z.framesTotal, z.freeable)

def kind (n : NewZone) : ℕ × Bool := (n.frameCount, n.freeable)

/-- The zones that a pool with the default allocator has. -/
inductive Grown (p : Pool) : Prop
  | empty (hk : p.kinds = []) (hl : p.lastZone = false)
  | low (hk : p.kinds = [kind lowMemory])
  | high (hk : p.kinds = [kind lowMemory, kind highMemory]) (hl : p.lastZone = true)

/-- The invariant of a pool with the default allocator. -/
def GrownInv (p : Pool) : Prop := Inv p ∧ Grown p

section Kinds

variable {pre post : List Zone} {f : FrameId} {x : Frame} {inc : Bool}

@[simp] theorem kinds_lowmemCheck : (p.lowmemCheck inc).kinds = p.kinds := by
  unfold lowmemCheck kinds
  split <;> rfl

theorem kinds_handOut (hz : p.zones = pre ++ z :: post) :
    (handOut p pre z post f x).kinds = p.kinds := by
  simp [kinds, handOut, hz, take]

theorem kinds_addZone (n : NewZone) : (p.addZone n).kinds = p.kinds ++ [kind n] := by
  simp [kinds, addZone, kind]

theorem kinds_giveBack : (giveBack p f x).kinds = p.kinds := by
  unfold kinds giveBack
  dsimp only
  rw [List.map_map]
  refine List.map_congr_left fun z _ => ?_
  simp only [Function.comp_apply]
  split <;> rfl

/-- A heartbeat may remove the high-memory zone, and no other. -/
theorem kinds_heartbeat {now timeout : ℚ} :
    (kinds { p with
      zones := (p.zones.filter fun z => ¬Expired now z).map (schedule now timeout) }).Sublist
        p.kinds ∧
    ∀ k ∈ p.kinds, k.2 = false → k ∈ kinds { p with
      zones := (p.zones.filter fun z => ¬Expired now z).map (schedule now timeout) } := by
  have hs : (fun z => (z.framesTotal, z.freeable)) ∘ schedule now timeout =
      fun z => (z.framesTotal, z.freeable) := by
    funext z
    simp only [Function.comp_apply, schedule]
    split <;> rfl
  unfold kinds
  dsimp only
  rw [List.map_map, hs]
  refine ⟨List.filter_sublist.map _, fun k hk hfree => ?_⟩
  obtain ⟨z, hz, rfl⟩ := List.mem_map.mp hk
  have he : ¬Expired now z := fun he => by simp [he.1] at hfree
  exact List.mem_map_of_mem (List.mem_filter.mpr ⟨hz, by simpa using he⟩)

end Kinds

section Steps

theorem Grown.congr (h : Grown p) (hk : q.kinds = p.kinds) (hl : q.lastZone = p.lastZone) :
    Grown q := by
  cases h with
  | empty hk' hl' => exact .empty (hk.trans hk') (hl.trans hl')
  | low hk' => exact .low (hk.trans hk')
  | high hk' hl' => exact .high (hk.trans hk') (hl.trans hl')

theorem length_kinds : p.kinds.length = p.zones.length := List.length_map _

/-- The default allocator asks for the zone that is missing. -/
theorem Grown.addZone {n : NewZone} (h : Grown p) (hl : p.lastZone = false)
    (ha : allocDefault mmap p = some n) : Grown (p.addZone n) := by
  have hlen := length_kinds (p := p)
  unfold allocDefault at ha
  cases h with
  | empty hk =>
    rw [hk] at hlen
    rw [List.length_eq_zero_iff.mp hlen.symm] at ha
    cases mmap with
    | false => cases ha
    | true =>
      obtain rfl : lowMemory = n := Option.some.inj ha
      refine .low ?_
      rw [kinds_addZone, hk]
      rfl
  | low hk =>
    rw [hk] at hlen
    obtain ⟨z, hz⟩ := List.length_eq_one_iff.mp hlen.symm
    rw [hz] at ha
    cases mmap with
    | false => cases ha
    | true =>
      obtain rfl : highMemory = n := Option.some.inj ha
      refine .high ?_ ?_
      · rw [kinds_addZone, hk]
        rfl
      · exact Bool.or_true _
  | high _ hl' => exact absurd (hl.symm.trans hl') (by simp)

theorem Grown.borrow {r : Option FrameId} (h : Grown p)
    (hs : BorrowStep p (allocDefault mmap p) type file line r q) : Grown q := by
  cases hs with
  | exhausted => exact h
  | found pre z post f hz =>
    refine h.congr ?_ ?_
    · rw [kinds_lowmemCheck, kinds_handOut hz]
    · unfold lowmemCheck
      split <;> rfl
  | grown n z f _ hl ha hn =>
    refine (h.addZone hl ha).congr ?_ ?_
    · rw [kinds_lowmemCheck, kinds_handOut hn]
    · unfold lowmemCheck
      split <;> rfl

theorem Grown.heartbeat {now timeout : ℚ} (h : Grown p) : Grown { p with
    zones := (p.zones.filter fun z => ¬Expired now z).map (schedule now timeout) } := by
  obtain ⟨hsub, hkeep⟩ := kinds_heartbeat (p := p)
  generalize hq : ({ p with
    zones := (p.zones.filter fun z => ¬Expired now z).map (schedule now timeout) } : Pool) = q at *
  have hl : q.lastZone = p.lastZone := by rw [← hq]
  cases h with
  | empty hk hl' => exact .empty (List.sublist_nil.mp (hk ▸ hsub)) (hl.trans hl')
  | low hk =>
    have hmem := hkeep (kind lowMemory) (by simp [hk]) rfl
    rw [hk] at hsub
    refine .low ?_
    rcases List.sublist_singleton.mp hsub with h0 | h1
    · rw [h0] at hmem
      cases hmem
    · exact h1
  | high hk hl' =>
    have hmem := hkeep (kind lowMemory) (by simp [hk]) rfl
    rw [hk] at hsub
    rcases List.sublist_cons_iff.mp hsub with h0 | ⟨r, hr, hsub'⟩
    · have hne := h0.subset hmem
      simp [kind, lowMemory, highMemory] at hne
    · rcases List.sublist_singleton.mp hsub' with rfl | rfl
      · exact .low hr
      · exact .high hr (hl.trans hl')

theorem exec_grown (h : GrownInv p) (c : DefaultOp) :
    wp (fun _ => False) (exec (c.op p)) (fun _ => GrownInv) p := by
  suffices hg : wp (fun _ => False) (exec (c.op p)) (fun _ => Grown) p from
    wp_mono (wp_and (exec_wp h.1 _) hg) fun _ _ hq => hq
  cases c with
  | borrow mmap type file line =>
    rw [DefaultOp.op, exec, wp_ite]
    refine ⟨fun _ => h.2, fun hc => ?_⟩
    rw [wp_bind]
    exact wp_mono (borrowReal_step h.1 (not_or.mp hc).2) fun _ _ hs => h.2.borrow hs
  | frameReturn f =>
    rw [DefaultOp.op, exec, wp_bind, wp_get, wp_ite]
    refine ⟨fun hf => wp_mono (frameReturn_step h.1 hf) ?_, fun _ => h.2⟩
    rintro _ q ⟨z, -, -, rfl⟩
    refine h.2.congr ?_ ?_
    · rw [kinds_lowmemCheck, kinds_giveBack]
    · unfold lowmemCheck
      split <;> rfl
  | heartbeat now timeout =>
    refine wp_mono onHeartbeat_step ?_
    rintro _ q rfl
    exact h.2.heartbeat
  | setNext f next =>
    rw [DefaultOp.op, exec, wp_bind, wp_get, wp_ite]
    exact ⟨fun _ => h.2.congr rfl rfl, fun _ => h.2⟩

end Steps

section Runs

/-- A zone without a free frame has all its frames in use. -/
theorem Inv.all_outstanding (h : Inv p) (hz : z ∈ p.zones) (hn : z.availableFrames = none) :
    ∀ f ∈ z.frames, f ∈ p.outstanding := by
  obtain ⟨xs, hc, hp⟩ := (h.zone z hz).free
  rw [hn] at hc
  obtain rfl := hc.eq_nil
  exact fun f hf => (mem_inZone.mp (hp.symm.subset hf)).1

/-- In a reachable state a pool regrows unless its high-memory zone was released and its low-memory
zone is used up. -/
theorem GrownInv.regrows_iff (h : GrownInv p) : Regrows p ↔ ¬Stuck p := by
  constructor
  · rintro hr ⟨hlast, hlen, hnone⟩
    have hstep : wp (fun _ => False) (borrowReal (allocDefault true p) .rawData "main.c" 1)
        (BorrowStep p (allocDefault true p) .rawData "main.c" 1) p := borrowReal_step h.1 (by simp)
    obtain ⟨r, q, -, hs, hlaw⟩ :=
      wp_returns (wp_and hstep (hr true .rawData "main.c" 1 (by simp) (by simp)))
    cases hs with
    | exhausted =>
      rcases hlaw rfl with ⟨low, high, hz, -⟩ | ⟨-, hl, -⟩
      · simp [hz] at hlen
      · exact absurd (hl.symm.trans hlast) (by simp)
    | found pre z post f hz hf => exact absurd ((hnone z (by simp [hz])).symm.trans hf) (by simp)
    | grown n z f _ hl => exact absurd (hl.symm.trans hlast) (by simp)
  · intro hs mmap type file line ht hl
    refine wp_mono (borrowReal_step h.1 hl) fun r q hstep hr => ?_
    subst hr
    obtain ⟨hnone, ha⟩ : (∀ z ∈ p.zones, z.availableFrames = none) ∧
        (p.lastZone = true ∨ allocDefault mmap p = none) := by
      cases hstep
      exact ⟨‹_›, ‹_›⟩
    have hlen := length_kinds (p := p)
    cases h.2 with
    | empty hk hl' =>
      rw [hk] at hlen
      have ha := ha.resolve_left (by simp [hl'])
      unfold allocDefault at ha
      rw [List.length_eq_zero_iff.mp hlen.symm] at ha
      exact Or.inr ⟨hnone, hl', by simp [← hlen], by cases mmap <;> simp_all⟩
    | low hk =>
      rw [hk] at hlen
      have hl' : p.lastZone = false := by
        by_contra hl'
        exact hs ⟨by simpa using hl', hlen.symm, hnone⟩
      have ha := ha.resolve_left (by simp [hl'])
      obtain ⟨z, hz⟩ := List.length_eq_one_iff.mp hlen.symm
      unfold allocDefault at ha
      rw [hz] at ha
      exact Or.inr ⟨hnone, hl', by simp [← hlen], by cases mmap <;> simp_all⟩
    | high hk =>
      rw [hk] at hlen
      obtain ⟨low, high, hz⟩ := List.length_eq_two.mp hlen.symm
      rw [kinds, hz] at hk
      simp only [List.map_cons, List.map_nil, List.cons.injEq, and_true] at hk
      exact Or.inl ⟨low, high, hz, congrArg Prod.fst hk.1, congrArg Prod.fst hk.2,
        fun z hz => h.1.all_outstanding hz (hnone z hz)⟩

theorem run_grown (heap : FrameId → Frame) (ops : List DefaultOp) :
    wp (fun _ => False) (runDefault ops) (fun _ => GrownInv) (init heap) := by
  refine wp_forM (fun c _ p hp => ?_) ⟨inv_init heap, .empty rfl rfl⟩
  rw [wp_bind, wp_get]
  exact exec_grown hp c

/-- In every run with the default allocator a pool regrows exactly while it is not stuck: while its
high-memory zone was not released, or a frame of the low-memory zone is free. -/
theorem run_regrows_iff (heap : FrameId → Frame) (ops : List DefaultOp) :
    wp (fun _ => False) (runDefault ops) (fun _ p => Regrows p ↔ ¬Stuck p) (init heap) :=
  wp_mono (run_grown heap ops) fun _ _ h => h.regrows_iff

end Runs

section Examples

-- the run below a closed precondition is evaluated by the kernel alone
attribute [local irreducible] wp

instance (p : Pool) : Decidable (Stuck p) := inferInstanceAs (Decidable (_ ∧ _))

/-- A pool that lost its high-memory zone to a heartbeat, and runs out of frames with 16 of them. -/
theorem not_run_regrows_all :
    ¬∀ (heap : FrameId → Frame) (ops : List DefaultOp),
      wp (fun _ => False) (runDefault ops) (fun _ => Regrows) (init heap) := by
  intro h
  obtain ⟨_, p, ⟨hr, hp⟩, hs⟩ := wp_observe (wp_and
      (h (fun _ => frameInit none) (List.replicate 17 (.borrow true .rawData "main.c" 1) ++
        [.frameReturn ⟨1, 0⟩, .heartbeat 1 0, .heartbeat 2 0]))
      (run_grown (fun _ => frameInit none) _))
    (g := fun r => decide (Stuck r.2)) (b := true) (by decide +kernel)
  exact hp.regrows_iff.mp hr (of_decide_eq_true hs)

end Examples

end Pool

end FrameTransporter
