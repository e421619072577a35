import FrameTransporter.Mempool.Ownership

/-! # The capacity of a pool

A pool counts all frames of its zones and warns when few of them are available.
The count grows with each new zone and is not lowered when a heartbeat removes a
zone, so it is right in the runs in which no zone is removed, and the warnings
are right with it.
-/

namespace FrameTransporter

open Hoare

namespace Pool

variable {p q : Pool} {z : Zone} {pre post : List Zone} {f : FrameId} {x : Frame}
  {type : FrameType} {file : String} {line : ℕ}

/-- The frames of the zones that exist. -/
def zonesTotal (p : Pool) : ℤ := (p.zones.map fun z => (z.framesTotal : ℤ)).sum

/-- `ft_pool_count_available_frames`. -/
def countAvailableFrames (p : Pool) : ℤ :=
  (p.zones.map fun z => (z.framesTotal : ℤ) - z.framesUsed).sum

/-- The pool counts the frames of its zones, and so knows how many are available. -/
structure Accounted (p : Pool) : Prop where
  total : p.framesTotal = p.zonesTotal
  available : p.framesTotal - p.framesUsed = p.countAvailableFrames

/-- The pool has a frame for the next borrow: one that is available, or one of a new zone that the
allocator gives. -/
def Supplies (p : Pool) (alloc : Option NewZone) : Prop :=
  (∃ z ∈ p.zones, z.availableFrames ≠ none) ∨ p.lastZone = false ∧ alloc ≠ none

/-- A borrow or return that led to `q` publishes a message exactly when the last zone is in use
and few frames are available afterwards, with their number. -/
def Announces (p q : Pool) (inc : Bool) : Prop :=
  q.published = p.published ++
    if q.lastZone ∧ q.countAvailableFrames < FT_POOL_LOWMEM_LIMIT then
      [⟨q.countAvailableFrames, inc⟩]
    else []

/-- The zones that an operation removes: a heartbeat removes the expired ones. -/
def Op.Removes (p : Pool) : Op → Prop
  | .heartbeat now _ => ∃ z ∈ p.zones, Expired now z
  | _ => False

instance (p : Pool) : (op : Op) → Decidable (op.Removes p)
  | .heartbeat now _ => inferInstanceAs (Decidable (∃ z ∈ p.zones, Expired now z))
  | .borrow .. | .frameReturn _ | .setNext .. => inferInstanceAs (Decidable False)

/-- Runs in which no zone is removed: a heartbeat that would remove one does not come. -/
def runKeeping (ops : List Op) : PoolM Unit := forM ops fun op => do
  let p ← get
  when (¬op.Removes p) <| exec op

section Total

@[simp] theorem framesTotal_lowmemCheck {inc : Bool} :
    (p.lowmemCheck inc).framesTotal = p.framesTotal := by
  unfold lowmemCheck
  split <;> rfl

@[simp] theorem framesUsed_lowmemCheck {inc : Bool} :
    (p.lowmemCheck inc).framesUsed = p.framesUsed := by
  unfold lowmemCheck
  split <;> rfl

@[simp] theorem zones_lowmemCheck {inc : Bool} : (p.lowmemCheck inc).zones = p.zones := by
  unfold lowmemCheck
  split <;> rfl

@[simp] theorem lastZone_lowmemCheck {inc : Bool} :
    (p.lowmemCheck inc).lastZone = p.lastZone := by
  unfold lowmemCheck
  split <;> rfl

@[simp] theorem zonesTotal_lowmemCheck {inc : Bool} :
    (p.lowmemCheck inc).zonesTotal = p.zonesTotal := by
  rw [zonesTotal, zones_lowmemCheck, zonesTotal]

theorem zonesTotal_handOut (hz : p.zones = pre ++ z :: post) :
    (handOut p pre z post f x).zonesTotal = p.zonesTotal := by
  simp [zonesTotal, handOut, hz, take]

theorem zonesTotal_addZone (n : NewZone) :
    (p.addZone n).zonesTotal = p.zonesTotal + n.frameCount := by
  simp [zonesTotal, addZone]

theorem zonesTotal_giveBack : (giveBack p f x).zonesTotal = p.zonesTotal := by
  unfold zonesTotal giveBack
  dsimp only
  rw [List.map_map]
  refine congrArg List.sum (List.map_congr_left fun z _ => ?_)
  simp only [Function.comp_apply]
  split <;> rfl

/-- What is available follows from the totals, since the frames in use are counted right. -/
theorem Inv.countAvailableFrames (h : Inv p) :
    p.countAvailableFrames = p.zonesTotal - p.framesUsed := by
  rw [h.used, zonesTotal, Pool.countAvailableFrames]
  induction p.zones with
  | nil => rfl
  | cons z zs ih =>
    simp only [List.map_cons, List.sum_cons, ih]
    omega

theorem Inv.accounted (h : Inv p) (ht : p.framesTotal = p.zonesTotal) : Accounted p :=
  ⟨ht, by rw [h.countAvailableFrames, ht]⟩

/-- A borrow hands out a frame exactly if the pool has one, and else does nothing. -/
theorem BorrowStep.supplied {alloc : Option NewZone} {r : Option FrameId}
    (h : BorrowStep p alloc type file line r q) :
    (p.Supplies alloc ∧ r ≠ none) ∨ (¬p.Supplies alloc ∧ r = none ∧ q = p) := by
  cases h with
  | exhausted hz ha =>
    refine .inr ⟨?_, rfl, rfl⟩
    rintro (⟨z, hm, hf⟩ | ⟨hl, hn⟩)
    · exact hf (hz z hm)
    · rcases ha with ha | ha
      · rw [hl] at ha
        cases ha
      · exact hn ha
  | found pre z post f hz hf => exact .inl ⟨.inl ⟨z, by simp [hz], by simp [hf]⟩, by simp⟩
  | grown n z f hz hl ha hn hf => exact .inl ⟨.inr ⟨hl, by simp [ha]⟩, by simp⟩

theorem BorrowStep.total {alloc : Option NewZone} {r : Option FrameId}
    (h : BorrowStep p alloc type file line r q) (ht : p.framesTotal = p.zonesTotal) :
    q.framesTotal = q.zonesTotal := by
  cases h with
  | exhausted => exact ht
  | found pre z post f hz =>
    rw [framesTotal_lowmemCheck, zonesTotal_lowmemCheck, zonesTotal_handOut hz]
    exact ht
  | grown n z f _ _ _ hn =>
    rw [framesTotal_lowmemCheck, zonesTotal_lowmemCheck, zonesTotal_handOut hn, zonesTotal_addZone,
      ← ht]
    rfl

/-- A heartbeat lowers the frames of the zones by those it removes, and the count by none. -/
theorem zonesTotal_heartbeat {now timeout : ℚ} :
    zonesTotal { p with
      zones := (p.zones.filter fun z => ¬Expired now z).map (schedule now timeout) } =
      p.zonesTotal - ((p.zones.filter (Expired now ·)).map fun z => (z.framesTotal : ℤ)).sum := by
  unfold zonesTotal
  dsimp only
  induction p.zones with
  | nil => rfl
  | cons z zs ih =>
    have hs : (schedule now timeout z).framesTotal = z.framesTotal := by
      unfold schedule
      split <;> rfl
    by_cases he : Expired now z
    · rw [List.filter_cons_of_neg (by simpa using he), ih,
        List.filter_cons_of_pos (by simpa using he)]
      simp only [List.map_cons, List.sum_cons]
      omega
    · rw [List.filter_cons_of_pos (by simpa using he), List.filter_cons_of_neg (by simpa using he)]
      simp only [List.map_cons, List.sum_cons, hs, ih]
      omega

end Total

section Messages

/-- The warning goes by the count of the pool, which is the number of available frames. -/
theorem announces_lowmemCheck {inc : Bool} (h : Accounted q) :
    Announces q (q.lowmemCheck inc) inc := by
  have hc : (q.lowmemCheck inc).countAvailableFrames = q.countAvailableFrames := by
    unfold countAvailableFrames
    rw [zones_lowmemCheck]
  unfold Announces
  rw [hc, lastZone_lowmemCheck, ← h.available]
  unfold lowmemCheck
  split
  · rfl
  · rw [List.append_nil]

theorem Announces.trans_eq {p' : Pool} {inc : Bool} (h : Announces p' q inc)
    (hp : p'.published = p.published) : Announces p q inc := by
  unfold Announces at *
  rw [h, hp]

/-- A borrow that hands out a frame warns right. -/
theorem BorrowStep.announces {alloc : Option NewZone} {r : Option FrameId}
    (h : BorrowStep p alloc type file line r q) (hp : Inv p) (hc : p.framesTotal = p.zonesTotal)
    (ht : type ≠ .free) (hl : line ≠ 0) (hr : r ≠ none) : Announces p q false := by
  have hlive : ∀ x, Live (resetFrame x type file line) := fun x => live_resetFrame ht hl
  cases h with
  | exhausted => exact absurd rfl hr
  | found pre z post f hz hf =>
    have hi := hp.handOut hz hf (hlive (p.heap f)) rfl
    refine (announces_lowmemCheck (hi.accounted ?_)).trans_eq rfl
    rw [zonesTotal_handOut hz]
    exact hc
  | grown n z f _ _ _ hn hf =>
    have hi := (hp.addZone (n := n)).handOut hn hf (hlive ((p.addZone n).heap f)) rfl
    refine (announces_lowmemCheck (hi.accounted ?_)).trans_eq rfl
    rw [zonesTotal_handOut hn, zonesTotal_addZone, ← hc]
    rfl

end Messages

section Runs

variable {E : Fault → Prop}

/-- What the count of a pool is good for: it is the capacity of the zones, and the warnings that
the next return sends, or the next borrow that finds a frame, are right. -/
structure Counted (p : Pool) : Prop where
  accounted : Accounted p
  borrow : ∀ alloc type file line, type ≠ .free → line ≠ 0 →
    wp (fun _ => False) (borrowReal alloc type file line) (fun _ q =>
      (p.Supplies alloc → Announces p q false) ∧ (¬p.Supplies alloc → q = p)) p
  frameReturn : ∀ f ∈ p.outstanding,
    wp (fun _ => False) (frameReturn f) (fun _ q => Announces p q true) p

/-- The pool invariant, with the count of the frames. -/
def CountInv (p : Pool) : Prop := Inv p ∧ p.framesTotal = p.zonesTotal

theorem CountInv.counted (h : CountInv p) : Counted p where
  accounted := h.1.accounted h.2
  borrow alloc type file line ht hl := by
    refine wp_mono (borrowReal_step h.1 hl) fun r q hs => ?_
    rcases hs.supplied with ⟨hp, hr⟩ | ⟨hp, -, hq⟩
    · exact ⟨fun _ => hs.announces h.1 h.2 ht hl hr, fun hn => absurd hp hn⟩
    · exact ⟨fun hn => absurd hn hp, fun _ => hq⟩
  frameReturn f hf := by
    refine wp_mono (frameReturn_step h.1 hf) ?_
    rintro _ q ⟨z, hz, hid, rfl⟩
    have hi := h.1.giveBack (x := returnedFrame (p.heap f) z) hf hz hid rfl
    refine (announces_lowmemCheck (hi.accounted ?_)).trans_eq rfl
    rw [zonesTotal_giveBack]
    exact h.2

/-- Operations that remove no zone keep the count right. -/
theorem exec_counted (h : CountInv p) {op : Op} (hop : ¬op.Removes p) :
    wp (fun _ => False) (exec op) (fun _ => CountInv) p := by
  suffices ht : wp (fun _ => False) (exec op) (fun _ q => q.framesTotal = q.zonesTotal) p from
    wp_mono (wp_and (exec_wp h.1 op) ht) fun _ _ hq => hq
  cases op with
  | borrow alloc type file line =>
    rw [exec, wp_ite]
    refine ⟨fun _ => h.2, fun hc => ?_⟩
    rw [wp_bind]
    exact wp_mono (borrowReal_step h.1 (not_or.mp hc).2) fun _ _ hs => hs.total h.2
  | frameReturn f =>
    rw [exec, wp_bind, wp_get, wp_ite]
    refine ⟨fun hf => wp_mono (frameReturn_step h.1 hf) ?_, fun _ => h.2⟩
    rintro _ q ⟨z, -, -, rfl⟩
    rw [framesTotal_lowmemCheck, zonesTotal_lowmemCheck, zonesTotal_giveBack]
    exact h.2
  | heartbeat now timeout =>
    refine wp_mono onHeartbeat_step ?_
    rintro _ q rfl
    have hnone : p.zones.filter (Expired now ·) = [] :=
      List.filter_eq_nil_iff.mpr fun z hz he => hop ⟨z, hz, by simpa using he⟩
    rw [zonesTotal_heartbeat, hnone]
    simpa using h.2
  | setNext f next =>
    rw [exec, wp_bind, wp_get, wp_ite]
    exact ⟨fun _ => h.2, fun _ => h.2⟩

/-- In every run in which no zone is removed, the pool counts its frames right and sends the
warnings that it should. -/
theorem run_counted (heap : FrameId → Frame) (ops : List Op) :
    wp (fun _ => False) (runKeeping ops) (fun _ => Counted) (init heap) := by
  have hstep : ∀ op ∈ ops, ∀ p, CountInv p → wp (fun _ => False)
      (do
        let p ← get
        when (¬op.Removes p) <| exec op) (fun _ => CountInv) p := by
    intro op _ p h
    rw [wp_bind, wp_get, wp_when]
    exact ⟨fun hop => exec_counted h hop, fun _ => h⟩
  exact wp_mono (wp_forM hstep ⟨inv_init heap, rfl⟩) fun _ _ h => h.counted

/-- A pool that grew to its high-memory zone, lost it to a heartbeat, and counts it still. -/
theorem not_run_counted_all :
    ¬∀ (heap : FrameId → Frame) (ops : List Op),
      wp (fun _ => False) (run ops) (fun _ => Accounted) (init heap) := by
  intro h
  obtain ⟨_, p, hp, ht⟩ := wp_observe (h (fun _ => frameInit none)
    (.borrow (some ⟨16, Nat.succ_pos _, false, false⟩) .rawData "main.c" 1 ::
      List.replicate 15 (.borrow none .rawData "main.c" 1) ++
      [.borrow (some ⟨2045, Nat.succ_pos _, true, true⟩) .rawData "main.c" 1, .frameReturn ⟨1, 0⟩,
        .heartbeat 1 0, .heartbeat 2 0]))
    (g := fun r => (r.2.framesTotal, r.2.zonesTotal)) (b := (2061, 16)) (by decide +kernel)
  obtain ⟨hf, hz⟩ := Prod.mk.inj ht
  exact absurd (hf.symm.trans (hp.total.trans hz)) (by decide)

end Runs

end Pool

end FrameTransporter
