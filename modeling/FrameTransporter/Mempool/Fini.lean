import FrameTransporter.Mempool.Ownership

/-! # The end of a pool

A pool is finalised zone by zone. A zone with frames that were not returned is not
unmapped: these frames are reported and the process aborts. The frames are found by
their type, so the reports are right because free frames are marked as free.
-/

namespace FrameTransporter

open Intrusive Hoare

namespace Pool

/-- The report about a frame that was not returned: its number from one on, and where it was seen
last. -/
structure Unreturned where
  number : ℕ
  lastSeenByFile : Option String
  lastSeenByLine : ℕ
  deriving DecidableEq, Repr

/-- What is logged before `_ft_poolzone_del` aborts: the count of a zone and the frames. -/
structure Leak where
  zone : ℕ
  framesUsed : ℤ
  frames : List Unreturned
  deriving DecidableEq, Repr

def report (x : Frame) (i : ℕ) : Unreturned := ⟨i + 1, x.lastSeenByFile, x.lastSeenByLine⟩

/-- The frames that `_ft_poolzone_del` reports. -/
def unreturned (p : Pool) (z : Zone) : List Unreturned :=
  (List.range z.framesTotal).filterMap fun i =>
    if (p.heap ⟨z.id, i⟩).type ≠ .free then some (report (p.heap ⟨z.id, i⟩) i) else none

/-- `_ft_poolzone_del`, which unmaps the zone, or aborts. -/
def poolzoneDel (p : Pool) (z : Zone) : Except Leak ℕ :=
  if z.framesUsed > 0 then .error ⟨z.id, z.framesUsed, p.unreturned z⟩ else .ok z.id

/-- The loop of `ft_pool_fini`: the zones that were unmapped, and why it aborted, if it did. -/
def finiZones (p : Pool) : List Zone → List ℕ × Option Leak
  | [] => ([], none)
  | z :: zs =>
    match p.poolzoneDel z with
    | .error leak => ([], some leak)
    | .ok id => (id :: (p.finiZones zs).1, (p.finiZones zs).2)

/-- `ft_pool_fini`. -/
def fini (p : Pool) : List ℕ × Option Leak := p.finiZones p.zones

variable {p q : Pool} {z : Zone} {zs : List Zone} {f : FrameId} {type : FrameType} {file : String}
  {line : ℕ} {n : NewZone}

/-- The frames of the zones that are not in use are marked as free. -/
def Marked (p : Pool) : Prop :=
  ∀ z ∈ p.zones, ∀ f ∈ z.frames, f ∉ p.outstanding → (p.heap f).type = .free

section Marks

theorem Marked.lowmemCheck {inc : Bool} (h : Marked p) : Marked (p.lowmemCheck inc) := by
  unfold Pool.lowmemCheck
  split <;> exact h

theorem Marked.handOut {pre post : List Zone} {x : Frame} (h : Marked p)
    (hz : p.zones = pre ++ z :: post) : Marked (handOut p pre z post f x) := by
  intro z' hz' g hg ho
  simp only [Pool.handOut, List.mem_cons, not_or] at ho
  have hmem : ∃ y ∈ p.zones, y.frames = z'.frames := by
    simp only [Pool.handOut, List.mem_append, List.mem_cons] at hz'
    rcases hz' with hz' | rfl | hz'
    · exact ⟨z', by simp [hz, hz'], rfl⟩
    · exact ⟨z, by simp [hz], rfl⟩
    · exact ⟨z', by simp [hz, hz'], rfl⟩
  obtain ⟨y, hy, hframes⟩ := hmem
  simp only [Pool.handOut, setFrame, Function.update_of_ne ho.1]
  exact h y hy g (hframes ▸ hg) ho.2

theorem Marked.addZone (h : Marked p) (hfresh : ∀ z ∈ p.zones, z.id < p.freshZone) :
    Marked (p.addZone n) := by
  intro z hz g hg ho
  simp only [Pool.addZone, List.mem_append, List.mem_singleton] at hz
  obtain ⟨hzone, hindex⟩ := Zone.mem_frames.mp hg
  rcases hz with hz | rfl
  · have hne : g.zone ≠ p.freshZone := by
      rw [hzone]
      exact (hfresh z hz).ne
    have hheap : (p.addZone n).heap g = p.heap g := if_neg fun hc => hne hc.1
    rw [hheap]
    exact h z hz g hg ho
  · have hheap : (p.addZone n).heap g = frameInit (initNext p.freshZone n.frameCount g.index) :=
      if_pos ⟨hzone, hindex⟩
    rw [hheap]
    rfl

theorem Marked.giveBack {x : Frame} (h : Marked p) (hx : x.type = .free) :
    Marked (giveBack p f x) := by
  intro z' hz' g hg ho
  obtain ⟨y, hy, rfl⟩ := List.mem_map.mp hz'
  have hframes : g ∈ y.frames := by
    split at hg <;> exact hg
  by_cases hf : g = f
  · subst hf
    simpa [Pool.giveBack, setFrame] using hx
  · simp only [Pool.giveBack, setFrame, Function.update_of_ne hf]
    refine h y hy g hframes fun hm => ho ?_
    exact (List.mem_erase_of_ne hf).mpr hm

theorem Marked.borrow {alloc : Option NewZone} {r : Option FrameId} (hi : Inv p) (h : Marked p)
    (hs : BorrowStep p alloc type file line r q) : Marked q := by
  cases hs with
  | exhausted => exact h
  | found pre z post f hz => exact (h.handOut hz).lowmemCheck
  | grown n z f _ _ _ hn => exact ((h.addZone hi.fresh).handOut hn).lowmemCheck

theorem exec_marked (op : Op) (h : Inv p ∧ Marked p) :
    wp (fun _ => False) (exec op) (fun _ q => Inv q ∧ Marked q) p := by
  refine wp_and (exec_wp h.1 op) ?_
  cases op with
  | borrow alloc type file line =>
    rw [exec, wp_ite]
    refine ⟨fun _ => h.2, fun hc => ?_⟩
    rw [wp_bind]
    exact wp_mono (borrowReal_step h.1 (not_or.mp hc).2) fun _ _ hs => h.2.borrow h.1 hs
  | frameReturn f =>
    rw [exec, wp_bind, wp_get, wp_ite]
    refine ⟨fun hf => wp_mono (frameReturn_step h.1 hf) ?_, fun _ => h.2⟩
    rintro _ q ⟨z, -, -, rfl⟩
    exact (h.2.giveBack rfl).lowmemCheck
  | heartbeat now timeout =>
    refine wp_mono onHeartbeat_step ?_
    rintro _ q rfl z hz g hg ho
    obtain ⟨y, hy, rfl⟩ := List.mem_map.mp hz
    refine h.2 y (List.mem_filter.mp hy).1 g ?_ ho
    unfold schedule at hg
    split at hg <;> exact hg
  | setNext f next =>
    rw [exec, wp_bind, wp_get, wp_ite]
    refine ⟨fun hf z hz g hg ho => ?_, fun _ => h.2⟩
    have hne : g ≠ f := fun he => ho (he ▸ hf)
    simp only [setFrame, Function.update_of_ne hne]
    exact h.2 z hz g hg ho

end Marks

section Finished

/-- The indices of the frames of a zone that are in use. -/
def inUse (p : Pool) (z : Zone) : List ℕ :=
  (List.range z.framesTotal).filter fun i => (⟨z.id, i⟩ : FrameId) ∈ p.outstanding

theorem mem_frames_range {i : ℕ} :
    i ∈ List.range z.framesTotal ↔ (⟨z.id, i⟩ : FrameId) ∈ z.frames := by
  rw [Zone.mem_frames, List.mem_range, eq_self_iff_true, true_and]

theorem type_free_iff (hi : Inv p) (hm : Marked p) (hz : z ∈ p.zones) (hf : f ∈ z.frames) :
    (p.heap f).type ≠ .free ↔ f ∈ p.outstanding := by
  constructor
  · intro ht
    by_contra ho
    exact ht (hm z hz f hf ho)
  · exact fun ho => (hi.live f ho).1

theorem unreturned_eq (hi : Inv p) (hm : Marked p) (hz : z ∈ p.zones) :
    p.unreturned z = (p.inUse z).map fun i => report (p.heap ⟨z.id, i⟩) i := by
  unfold unreturned inUse
  rw [← List.filterMap_eq_map, List.filterMap_filter]
  refine List.filterMap_congr fun i hmem => ?_
  have ht := type_free_iff hi hm hz (mem_frames_range.mp hmem)
  by_cases ho : (⟨z.id, i⟩ : FrameId) ∈ p.outstanding
  · rw [if_pos (ht.mpr ho), if_pos (by simpa using ho)]
    rfl
  · rw [if_neg fun hc => ho (ht.mp hc), if_neg (by simpa using ho)]

theorem inUse_perm (hi : Inv p) (hz : z ∈ p.zones) :
    ((p.inUse z).map (FrameId.mk z.id)).Perm (inZone p.outstanding z) := by
  obtain ⟨⟨xs, -, hp⟩, -⟩ := hi.zone z hz
  have hn : (inZone p.outstanding z).Nodup := hi.out_nodup.filter _
  refine (List.perm_ext_iff_of_nodup ?_ hn).mpr fun f => ?_
  · exact (List.nodup_range.filter _).map fun i j hij => (FrameId.mk.inj hij).2
  · rw [List.mem_map, mem_inZone]
    constructor
    · rintro ⟨i, hmem, rfl⟩
      exact ⟨by simpa using (List.mem_filter.mp hmem).2, rfl⟩
    · rintro ⟨ho, hid⟩
      have hf : f ∈ z.frames := hp.subset (List.mem_append_right _ (mem_inZone.mpr ⟨ho, hid⟩))
      obtain ⟨zone, index⟩ := f
      obtain rfl : zone = z.id := hid
      exact ⟨index, List.mem_filter.mpr ⟨mem_frames_range.mpr hf, by simpa using ho⟩, rfl⟩

/-- The report about a zone names the frames of it that are in use, in their order, and counts
them. -/
structure Exact (p : Pool) (leak : Leak) : Prop where
  counted : leak.framesUsed = leak.frames.length
  ordered : leak.frames.Pairwise fun r s => r.number < s.number
  mem : ∀ r, r ∈ leak.frames ↔
    ∃ f ∈ p.outstanding, f.zone = leak.zone ∧ r = report (p.heap f) f.index

theorem exact_unreturned (hi : Inv p) (hm : Marked p) (hz : z ∈ p.zones) :
    Exact p ⟨z.id, z.framesUsed, p.unreturned z⟩ where
  counted := by
    have hlength := (inUse_perm hi hz).length_eq
    rw [List.length_map] at hlength
    rw [(hi.zone z hz).used, unreturned_eq hi hm hz, List.length_map, hlength]
  ordered := by
    dsimp only
    rw [unreturned_eq hi hm hz, List.pairwise_map]
    exact (List.pairwise_lt_range.filter _).imp fun hlt => Nat.succ_lt_succ hlt
  mem r := by
    have hperm (f : FrameId) : f ∈ (p.inUse z).map (FrameId.mk z.id) ↔
        f ∈ p.outstanding ∧ f.zone = z.id := (inUse_perm hi hz).mem_iff.trans mem_inZone
    dsimp only
    rw [unreturned_eq hi hm hz, List.mem_map]
    constructor
    · rintro ⟨i, hmem, rfl⟩
      obtain ⟨ho, -⟩ := (hperm ⟨z.id, i⟩).mp (List.mem_map_of_mem hmem)
      exact ⟨⟨z.id, i⟩, ho, rfl, rfl⟩
    · rintro ⟨f, ho, hid, rfl⟩
      obtain ⟨i, hmem, rfl⟩ := List.mem_map.mp ((hperm f).mpr ⟨ho, hid⟩)
      exact ⟨i, hmem, rfl⟩

/-- The zones before the first one with a frame in use are unmapped. -/
theorem finiZones_spec (hi : Inv p) (hm : Marked p) (hz : ∀ z ∈ zs, z ∈ p.zones) :
    (p.finiZones zs).1 <+: zs.map Zone.id ∧
      (∀ f ∈ p.outstanding, f.zone ∉ (p.finiZones zs).1) ∧
      (∀ leak ∈ (p.finiZones zs).2, Exact p leak ∧ leak.frames ≠ []) ∧
      ((p.finiZones zs).2 = none → (p.finiZones zs).1 = zs.map Zone.id) := by
  induction zs with
  | nil => simp [finiZones]
  | cons z zs ih =>
    obtain ⟨hsub, hsafe, hleak, hall⟩ := ih fun y hy => hz y (List.mem_cons_of_mem _ hy)
    have hzone := hz z (List.mem_cons_self ..)
    have hused := (hi.zone z hzone).used
    unfold finiZones poolzoneDel
    by_cases hu : z.framesUsed > 0
    · have hexact := exact_unreturned hi hm hzone
      have hne : p.unreturned z ≠ [] := by
        intro he
        have hcount := hexact.counted
        rw [he] at hcount
        simp at hcount
        omega
      rw [if_pos hu]
      exact ⟨List.nil_prefix, by simp, by simpa using ⟨hexact, hne⟩, by simp⟩
    · have hnone : inZone p.outstanding z = [] := by
        rw [← List.length_eq_zero_iff]
        omega
      rw [if_neg hu]
      refine ⟨?_, fun f hf => ?_, hleak, fun hn => ?_⟩
      · exact List.cons_prefix_cons.mpr ⟨rfl, hsub⟩
      · rw [List.mem_cons, not_or]
        refine ⟨fun he => ?_, hsafe f hf⟩
        have hmem : f ∈ inZone p.outstanding z := mem_inZone.mpr ⟨hf, he⟩
        rw [hnone] at hmem
        cases hmem
      · rw [List.map_cons, ← hall hn]

/-- The end of a pool: it is complete if no frame is in use. Otherwise no zone with a frame in use
is unmapped, and one such zone is reported. -/
structure Finished (p : Pool) : Prop where
  complete : p.fini.2 = none ↔ p.outstanding = []
  unmapped : p.outstanding = [] → p.fini.1 = p.zones.map Zone.id
  once : p.fini.1.Nodup
  safe : ∀ f ∈ p.outstanding, f.zone ∉ p.fini.1
  reported : ∀ leak ∈ p.fini.2, Exact p leak ∧ leak.frames ≠ []

theorem finished (hi : Inv p) (hm : Marked p) : Finished p := by
  obtain ⟨hsub, hsafe, hleak, hall⟩ := finiZones_spec hi hm fun z (hz : z ∈ p.zones) => hz
  have hcomplete : p.fini.2 = none ↔ p.outstanding = [] := by
    constructor
    · intro hn
      by_contra hne
      obtain ⟨f, hf⟩ := List.exists_mem_of_ne_nil _ hne
      obtain ⟨z, hz, hid⟩ := hi.out_zone f hf
      refine hsafe f hf ?_
      rw [hall hn, ← hid]
      exact List.mem_map_of_mem hz
    · intro ho
      by_contra hne
      obtain ⟨leak, hl⟩ := Option.ne_none_iff_exists'.mp hne
      obtain ⟨hexact, hframes⟩ := hleak leak hl
      obtain ⟨r, hr⟩ := List.exists_mem_of_ne_nil _ hframes
      obtain ⟨f, hf, -⟩ := (hexact.mem r).mp hr
      rw [ho] at hf
      cases hf
  exact ⟨hcomplete, fun ho => hall (hcomplete.mpr ho), hsub.sublist.nodup hi.ids, hsafe, hleak⟩

/-- After every run the pool can be finalised exactly if no frame is in use, and what is reported
otherwise is right. -/
theorem run_finished (heap : FrameId → Frame) (ops : List Op) :
    wp (fun _ => False) (run ops) (fun _ => Finished) (init heap) := by
  have hinit : Inv (init heap) ∧ Marked (init heap) := by
    refine ⟨inv_init heap, ?_⟩
    intro z hz
    cases hz
  refine wp_mono (wp_forM (fun op _ q hq => exec_marked op hq) hinit) ?_
  exact fun _ _ h => finished h.1 h.2

end Finished

end Pool

end FrameTransporter
