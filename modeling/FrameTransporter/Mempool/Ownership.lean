import Mathlib.Algebra.BigOperators.Group.List.Basic
import Mathlib.Algebra.Order.BigOperators.Group.List
import Mathlib.Data.List.Perm.Lattice
import Mathlib.Tactic.Linarith
import FrameTransporter.Mempool.Pool

/-! # Ownership of pool frames

The invariant ties the free list of a zone to the frames its users hold: both
together are the frames of the zone. Every operation keeps it, so a frame is in
one place at any time and a zone with a frame in use survives every heartbeat.
-/

namespace FrameTransporter

open Intrusive Hoare

/-- The frames of a zone. -/
def Zone.frames (z : Zone) : List FrameId := (List.range z.framesTotal).map fun i => ⟨z.id, i⟩

theorem Zone.mem_frames {z : Zone} {f : FrameId} :
    f ∈ z.frames ↔ f.zone = z.id ∧ f.index < z.framesTotal := by
  obtain ⟨a, b⟩ := f
  simp [Zone.frames, eq_comm, and_comm]

theorem Zone.frames_nodup (z : Zone) : z.frames.Nodup :=
  List.nodup_range.map fun _ _ h => by simpa using h

namespace Pool

variable {p q : Pool} {z z' : Zone} {zs pre post : List Zone} {f : FrameId} {type : FrameType}
  {file : String} {line : ℕ} {out : List FrameId} {next next' : FrameId → Option FrameId}

/-- The frames of a zone among the listed ones. -/
def inZone (out : List FrameId) (z : Zone) : List FrameId := out.filter fun f => f.zone = z.id

@[simp] theorem mem_inZone : f ∈ inZone out z ↔ f ∈ out ∧ f.zone = z.id := by simp [inZone]

theorem inZone_congr (h : z.id = z'.id) : inZone out z = inZone out z' := by simp [inZone, h]

theorem inZone_cons_self (h : f.zone = z.id) : inZone (f :: out) z = f :: inZone out z := by
  simp [inZone, h]

theorem inZone_cons_of_ne (h : f.zone ≠ z.id) : inZone (f :: out) z = inZone out z := by
  simp [inZone, h]

theorem inZone_erase (h : out.Nodup) : inZone (out.erase f) z = (inZone out z).erase f := by
  rw [h.erase_eq_filter, inZone, inZone, (h.filter _).erase_eq_filter, List.filter_comm]

/-- The free list and the frames in use are the frames of the zone, and are counted. -/
structure ZoneInv (next : FrameId → Option FrameId) (out : List FrameId) (z : Zone) : Prop where
  free : ∃ xs, Chain next z.availableFrames xs ∧ (xs ++ inZone out z).Perm z.frames
  used : z.framesUsed = (inZone out z).length

/-- What `ft_frame_return` asserts about a frame in use. -/
def Live (x : Frame) : Prop :=
  x.type ≠ .free ∧ x.lastSeenByFile ≠ none ∧ x.lastSeenByLine ≠ 0

structure Inv (p : Pool) : Prop where
  ids : (p.zones.map Zone.id).Nodup
  fresh : ∀ z ∈ p.zones, z.id < p.freshZone
  zone : ∀ z ∈ p.zones, ZoneInv p.next p.outstanding z
  out_nodup : p.outstanding.Nodup
  out_zone : ∀ f ∈ p.outstanding, ∃ z ∈ p.zones, z.id = f.zone
  live : ∀ f ∈ p.outstanding, Live (p.heap f)
  used : p.framesUsed = (p.zones.map Zone.framesUsed).sum

theorem inv_init (heap : FrameId → Frame) : Inv (init heap) := by
  constructor <;> simp [init]

section Zones

theorem ZoneInv.chain_mem {xs : List FrameId} (h : (xs ++ inZone out z).Perm z.frames)
    (hf : f ∈ xs) : f.zone = z.id :=
  (Zone.mem_frames.mp (h.subset (List.mem_append_left _ hf))).1

/-- A zone only depends on the links and on the use of its own frames. -/
theorem ZoneInv.congr {out' : List FrameId} (h : ZoneInv next out z)
    (hn : ∀ f : FrameId, f.zone = z.id → next f = next' f) (ho : inZone out z = inZone out' z) :
    ZoneInv next' out' z := by
  obtain ⟨⟨xs, hc, hp⟩, hu⟩ := h
  refine ⟨⟨xs, hc.congr fun f hf => hn f (chain_mem hp hf), ?_⟩, ?_⟩
  · rwa [← ho]
  · rwa [← ho]

/-- The record of a zone after its first free frame `f` was taken. -/
def take (p : Pool) (z : Zone) (f : FrameId) : Zone :=
  { z with availableFrames := p.next f, framesUsed := z.framesUsed + 1 }

/-- A frame on the free list of a zone is not in use. -/
theorem ZoneInv.not_mem (h : ZoneInv next out z) (hz : z.availableFrames = some f) :
    f.zone = z.id ∧ f ∉ out := by
  obtain ⟨⟨xs, hc, hp⟩, -⟩ := h
  rw [hz] at hc
  obtain ⟨ys, rfl, -⟩ := hc.exists_cons
  have hid : f.zone = z.id := chain_mem hp (by simp)
  refine ⟨hid, fun hm => ?_⟩
  have hn := (hp.nodup_iff.mpr z.frames_nodup)
  exact (List.nodup_append.mp hn).2.2 f (by simp) f (mem_inZone.mpr ⟨hm, hid⟩) rfl

theorem ZoneInv.take (h : ZoneInv p.next out z) (hz : z.availableFrames = some f)
    (hn : next = Function.update p.next f none) :
    ZoneInv next (f :: out) (take p z f) := by
  obtain ⟨hid, -⟩ := h.not_mem hz
  obtain ⟨⟨xs, hc, hp⟩, hu⟩ := h
  rw [hz] at hc
  obtain ⟨ys, rfl, hy⟩ := hc.exists_cons
  have hf : f ∉ ys := (List.nodup_cons.mp hc.nodup).1
  have hi : inZone (f :: out) (Pool.take p z f) = f :: inZone out z :=
    (inZone_cons_self hid).trans (by rw [inZone_congr rfl])
  refine ⟨⟨ys, hn ▸ hy.update hf, ?_⟩, ?_⟩
  · rw [hi]
    exact List.perm_middle.trans hp
  · rw [hi, Pool.take, hu]
    simp

/-- Putting a frame in use back onto the free list of its zone. -/
theorem ZoneInv.giveBack (h : ZoneInv next out z) (hid : f.zone = z.id) (hf : f ∈ out)
    (hout : out.Nodup) (hn : next' = Function.update next f z.availableFrames) :
    ZoneInv next' (out.erase f) (returnToZone f z) := by
  obtain ⟨⟨xs, hc, hp⟩, hu⟩ := h
  have hfz : f ∈ inZone out z := mem_inZone.mpr ⟨hf, hid⟩
  have hfx : f ∉ xs := fun hx =>
    (List.nodup_append.mp (hp.nodup_iff.mpr z.frames_nodup)).2.2 f hx f hfz rfl
  have hi : inZone (out.erase f) (returnToZone f z) = (inZone out z).erase f :=
    inZone_erase hout
  refine ⟨⟨f :: xs, ?_, ?_⟩, ?_⟩
  · exact hn ▸ hc.push hfx
  · rw [hi]
    refine List.Perm.trans ?_ hp
    exact List.perm_middle.symm.trans (List.Perm.append_left _ (List.perm_cons_erase hfz).symm)
  · have hl := List.length_pos_of_mem hfz
    rw [hi, List.length_erase_of_mem hfz]
    simp only [returnToZone, hu]
    omega

end Zones

section Borrow

variable {x : Frame} {n : NewZone}

theorem next_setFrame : (p.setFrame f x).next = Function.update p.next f x.next := by
  funext g
  by_cases h : g = f
  · subst h; simp [next, setFrame]
  · simp [next, setFrame, h]

/-- The pool after the first free frame of a zone was handed out with the header `x`. -/
def handOut (p : Pool) (pre : List Zone) (z : Zone) (post : List Zone) (f : FrameId)
    (x : Frame) : Pool :=
  { p.setFrame f x with
    zones := pre ++ take p z f :: post
    framesUsed := p.framesUsed + 1
    outstanding := f :: p.outstanding }

theorem Inv.split_ids (h : Inv p) (hz : p.zones = pre ++ z :: post)
    (hz' : z' ∈ pre ∨ z' ∈ post) : z' ∈ p.zones ∧ z'.id ≠ z.id := by
  have hn := h.ids
  rw [hz, List.map_append, List.map_cons] at hn
  have hd := List.nodup_append.mp hn
  rcases hz' with hz' | hz'
  · exact ⟨by simp [hz, hz'], hd.2.2 _ (List.mem_map_of_mem hz') _ (by simp)⟩
  · refine ⟨by simp [hz, hz'], fun e => ?_⟩
    exact (List.nodup_cons.mp hd.2.1).1 (e ▸ List.mem_map_of_mem hz')

theorem Inv.handOut (h : Inv p) (hz : p.zones = pre ++ z :: post)
    (hf : z.availableFrames = some f) (hx : Live x) (hn : x.next = none) :
    Inv (handOut p pre z post f x) := by
  have hm : z ∈ p.zones := by simp [hz]
  obtain ⟨hid, hout⟩ := (h.zone z hm).not_mem hf
  have hother : ∀ z', z' ∈ pre ∨ z' ∈ post →
      ZoneInv (Pool.next (Pool.handOut p pre z post f x)) (f :: p.outstanding) z' := by
    intro z' hz'
    obtain ⟨hm', hne⟩ := h.split_ids hz hz'
    refine (h.zone z' hm').congr (fun g hg => ?_) ?_
    · change _ = (p.setFrame f x).next g
      rw [next_setFrame, Function.update_of_ne]
      rintro rfl
      exact hne (hg.symm.trans hid)
    · exact (inZone_cons_of_ne fun e => hne (e.symm.trans hid)).symm
  constructor
  case ids => simpa [Pool.handOut, take, hz] using h.ids
  case fresh =>
    intro z' hz'
    rcases List.mem_append.mp hz' with hz' | hz'
    · exact h.fresh z' (by simp [hz, hz'])
    · rcases List.mem_cons.mp hz' with rfl | hz'
      · exact h.fresh z hm
      · exact h.fresh z' (by simp [hz, hz'])
  case zone =>
    intro z' hz'
    rcases List.mem_append.mp hz' with hz' | hz'
    · exact hother z' (Or.inl hz')
    · rcases List.mem_cons.mp hz' with rfl | hz'
      · exact (h.zone z hm).take hf (by rw [← hn]; exact next_setFrame)
      · exact hother z' (Or.inr hz')
  case out_nodup => exact List.nodup_cons.mpr ⟨hout, h.out_nodup⟩
  case out_zone =>
    intro g hg
    rcases List.mem_cons.mp hg with rfl | hg
    · exact ⟨take p z g, by simp [Pool.handOut], hid.symm⟩
    · obtain ⟨z', hz', he⟩ := h.out_zone g hg
      rw [hz] at hz'
      rcases List.mem_append.mp hz' with hz' | hz'
      · exact ⟨z', by simp [Pool.handOut, hz'], he⟩
      · rcases List.mem_cons.mp hz' with rfl | hz'
        · exact ⟨take p z' f, by simp [Pool.handOut], he⟩
        · exact ⟨z', by simp [Pool.handOut, hz'], he⟩
  case live =>
    intro g hg
    by_cases e : g = f
    · subst e; simpa [Pool.handOut, setFrame] using hx
    · have hg : g ∈ p.outstanding := (List.mem_cons.mp hg).resolve_left e
      simpa [Pool.handOut, setFrame, e] using h.live g hg
  case used =>
    simp only [Pool.handOut, setFrame, h.used, hz, take, List.map_append, List.map_cons,
      List.sum_append, List.sum_cons]
    omega

/-- The pool after the allocator appended a zone. -/
def addZone (p : Pool) (n : NewZone) : Pool :=
  { p with
    zones := p.zones ++ [⟨p.freshZone, n.freeable, false, false, n.frameCount, 0, 0,
      some ⟨p.freshZone, 0⟩⟩]
    lastZone := p.lastZone || n.lastZone
    heap := fun f =>
      if f.zone = p.freshZone ∧ f.index < n.frameCount then
        frameInit (initNext p.freshZone n.frameCount f.index)
      else p.heap f
    framesTotal := p.framesTotal + n.frameCount
    freshZone := p.freshZone + 1 }

/-- The links stored by `ft_poolzone_init` chain the frames in index order. -/
theorem chain_initNext {id n : ℕ} (hn : ∀ i < n, next ⟨id, i⟩ = initNext id n i) :
    ∀ m k, k + m = n →
      Chain next (if k < n then some ⟨id, k⟩ else none) ((List.range' k m).map fun i => ⟨id, i⟩)
  | 0, k, h => by simp [show ¬k < n by omega]
  | m + 1, k, h => by
    have hk : k < n := by omega
    rw [List.range'_succ, List.map_cons, if_pos hk]
    refine ⟨rfl, ?_⟩
    rw [hn k hk]
    exact chain_initNext hn m (k + 1) (by omega)

theorem Inv.addZone (h : Inv p) : Inv (addZone p n) := by
  have hold : ∀ z ∈ p.zones, z.id ≠ p.freshZone := fun z hz => (h.fresh z hz).ne
  have hout : ∀ f ∈ p.outstanding, f.zone ≠ p.freshZone := fun f hf e => by
    obtain ⟨z, hz, he⟩ := h.out_zone f hf
    exact hold z hz (he.trans e)
  constructor
  case ids =>
    rw [Pool.addZone, List.map_append]
    exact List.nodup_append.mpr ⟨h.ids, by simp, by simpa using hold⟩
  case fresh =>
    intro z hz
    rcases List.mem_append.mp hz with hz | hz
    · exact (h.fresh z hz).trans (Nat.lt_succ_self _)
    · obtain rfl := List.mem_singleton.mp hz
      exact Nat.lt_succ_self _
  case zone =>
    intro z hz
    rcases List.mem_append.mp hz with hz | hz
    · refine (h.zone z hz).congr (fun f hf => ?_) rfl
      simp [Pool.next, Pool.addZone, hf, hold z hz]
    · obtain rfl := List.mem_singleton.mp hz
      have hz : inZone p.outstanding
          ⟨p.freshZone, n.freeable, false, false, n.frameCount, 0, 0, some ⟨p.freshZone, 0⟩⟩ = [] :=
        List.filter_eq_nil_iff.mpr fun f hf => by simpa using hout f hf
      have hn : ∀ i < n.frameCount,
          (Pool.addZone p n).next ⟨p.freshZone, i⟩ = initNext p.freshZone n.frameCount i :=
        fun i hi => by simp [Pool.next, Pool.addZone, hi, frameInit]
      have hc := chain_initNext hn n.frameCount 0 (Nat.zero_add _)
      rw [if_pos n.frameCount_pos, ← List.range_eq_range'] at hc
      exact ⟨⟨_, hc, by simp [Pool.addZone, hz, Zone.frames]⟩, by simp [Pool.addZone, hz]⟩
  case out_nodup => exact h.out_nodup
  case out_zone =>
    intro f hf
    obtain ⟨z, hz, he⟩ := h.out_zone f hf
    exact ⟨z, List.mem_append_left _ hz, he⟩
  case live =>
    intro f hf
    simpa [Pool.addZone, hout f hf] using h.live f hf
  case used => simpa [Pool.addZone] using h.used

end Borrow

section Operations

variable {E : Fault → Prop} {alloc : Option NewZone} {now timeout : ℚ}

theorem poolzoneBorrow_wp (hl : line ≠ 0) :
    wp E (poolzoneBorrow z type file line) (fun r q =>
      (z.availableFrames = none ∧ r = (none, z) ∧ p = q) ∨
      ∃ f, z.availableFrames = some f ∧ r = (some f, take p z f) ∧
        q = p.setFrame f (resetFrame (p.heap f) type file line)) p := by
  unfold poolzoneBorrow
  rw [if_neg hl]
  cases hz : z.availableFrames with
  | none => exact Or.inl ⟨rfl, rfl, rfl⟩
  | some f => exact Or.inr ⟨f, rfl, rfl, rfl⟩

/-- The first zone with a free frame serves, and the others stay as they are. -/
theorem borrowZones_wp (hl : line ≠ 0) (zs : List Zone) :
    wp E (borrowZones type file line zs) (fun r q =>
      ((∀ z ∈ zs, z.availableFrames = none) ∧ r = (none, zs) ∧ p = q) ∨
      ∃ pre z post f, zs = pre ++ z :: post ∧ z.availableFrames = some f ∧
        r = (some f, pre ++ take p z f :: post) ∧
        q = p.setFrame f (resetFrame (p.heap f) type file line)) p := by
  induction zs with
  | nil => exact Or.inl ⟨by simp, rfl, rfl⟩
  | cons z zs ih =>
    rw [borrowZones, wp_bind]
    refine wp_mono (poolzoneBorrow_wp hl) ?_
    rintro ⟨_, _⟩ q (⟨hz, ⟨rfl, rfl⟩, rfl⟩ | ⟨f, hz, ⟨rfl, rfl⟩, rfl⟩)
    · rw [wp_bind]
      refine wp_mono ih ?_
      rintro ⟨_, _⟩ q (⟨hzs, ⟨rfl, rfl⟩, rfl⟩ | ⟨pre, z', post, f, rfl, hf, ⟨rfl, rfl⟩, rfl⟩)
      · exact Or.inl ⟨List.forall_mem_cons.mpr ⟨hz, hzs⟩, rfl, rfl⟩
      · exact Or.inr ⟨z :: pre, z', post, f, rfl, hf, rfl, rfl⟩
    · exact Or.inr ⟨[], z, zs, f, rfl, hz, rfl, rfl⟩

theorem inv_lowmemCheck {inc : Bool} : Inv (p.lowmemCheck inc) ↔ Inv p := by
  unfold lowmemCheck
  split
  · constructor <;>
    · rintro ⟨a, b, c, d, e, f, g⟩
      exact ⟨a, b, c, d, e, f, g⟩
  · rfl

@[simp] theorem outstanding_lowmemCheck {inc : Bool} :
    (p.lowmemCheck inc).outstanding = p.outstanding := by
  unfold lowmemCheck
  split <;> rfl

theorem Inv.framesUsed_nonneg (h : Inv p) : 0 ≤ p.framesUsed := by
  rw [h.used]
  refine List.sum_nonneg fun u hu => ?_
  obtain ⟨z, hz, rfl⟩ := List.mem_map.mp hu
  rw [(h.zone z hz).used]
  omega

theorem live_resetFrame {x : Frame} (ht : type ≠ .free) (hl : line ≠ 0) :
    Live (resetFrame x type file line) := ⟨ht, by simp [resetFrame], hl⟩

/-- What a borrow may do to a pool: hand out a frame that was not in use, or nothing at all. -/
def Borrowed (p : Pool) (r : Option FrameId) (q : Pool) : Prop :=
  Inv q ∧ match r with
    | none => q = p
    | some f => f ∉ p.outstanding ∧ q.outstanding = f :: p.outstanding

/-- The pool after a frame was handed out, with the warning if few are left. -/
theorem exitWithFrame_wp {x : Frame} (h : Inv p) :
    wp E (exitWithFrame f)
      (fun r q => r = some f ∧ q = (handOut p pre z post f x).lowmemCheck false)
      { p.setFrame f x with zones := pre ++ take p z f :: post } := by
  unfold exitWithFrame
  have hu : ¬p.framesUsed < 0 := not_lt.mpr h.framesUsed_nonneg
  simp only [wp_bind, wp_get, setFrame, hu, if_false, wp_set]
  exact ⟨rfl, rfl⟩

/-- All that a borrow can do: fail, hand out a frame of a zone, or one of a new zone. -/
inductive BorrowStep (p : Pool) (alloc : Option NewZone) (type : FrameType) (file : String)
    (line : ℕ) : Option FrameId → Pool → Prop
  | exhausted (hz : ∀ z ∈ p.zones, z.availableFrames = none)
      (ha : p.lastZone = true ∨ alloc = none) : BorrowStep p alloc type file line none p
  | found (pre : List Zone) (z : Zone) (post : List Zone) (f : FrameId)
      (hz : p.zones = pre ++ z :: post) (hf : z.availableFrames = some f) :
      BorrowStep p alloc type file line (some f)
        ((handOut p pre z post f (resetFrame (p.heap f) type file line)).lowmemCheck false)
  | grown (n : NewZone) (z : Zone) (f : FrameId) (hz : ∀ z ∈ p.zones, z.availableFrames = none)
      (hl : p.lastZone = false) (ha : alloc = some n) (hn : (p.addZone n).zones = p.zones ++ [z])
      (hf : z.availableFrames = some f) : BorrowStep p alloc type file line (some f)
        ((handOut (p.addZone n) p.zones z [] f
          (resetFrame ((p.addZone n).heap f) type file line)).lowmemCheck false)

theorem borrowReal_step (h : Inv p) (hl : line ≠ 0) :
    wp E (borrowReal alloc type file line) (BorrowStep p alloc type file line) p := by
  rw [borrowReal, wp_bind, wp_get, wp_bind]
  refine wp_mono (borrowZones_wp hl p.zones) ?_
  rintro ⟨_, _⟩ q (⟨hnone, ⟨rfl, rfl⟩, rfl⟩ | ⟨pre, z, post, f, hz, hf, ⟨rfl, rfl⟩, rfl⟩)
  · -- no zone has a free frame
    cases hlast : p.lastZone with
    | true => exact .exhausted hnone (Or.inl hlast)
    | false =>
      cases alloc with
      | none => exact .exhausted hnone (Or.inr rfl)
      | some n =>
        simp only [Bool.false_eq_true, if_false, poolzoneInit, wp_bind, wp_get, wp_set,
          wp_pure, wp_modify]
        refine wp_mono (poolzoneBorrow_wp hl) ?_
        rintro ⟨_, _⟩ q (⟨hz, -, -⟩ | ⟨f, hf, ⟨rfl, rfl⟩, rfl⟩)
        · cases hz
        · simp only [wp_bind, wp_modify]
          refine wp_mono (exitWithFrame_wp (p := p.addZone n)
            (h.addZone (n := n))) ?_
          rintro _ q ⟨rfl, rfl⟩
          exact .grown n _ f hnone hlast rfl rfl hf
  · -- the frame comes from the zone `z`
    simp only [wp_bind, wp_modify]
    refine wp_mono (exitWithFrame_wp h) ?_
    rintro _ q ⟨rfl, rfl⟩
    exact .found pre z post f hz hf

theorem borrowReal_wp (h : Inv p) (ht : type ≠ .free) (hl : line ≠ 0) :
    wp E (borrowReal alloc type file line) (Borrowed p) p := by
  have hlive : ∀ x, Live (resetFrame x type file line) := fun x => live_resetFrame ht hl
  refine wp_mono (borrowReal_step h hl) fun r q hs => ?_
  cases hs with
  | exhausted => exact ⟨h, rfl⟩
  | found pre z post f hz hf =>
    exact ⟨inv_lowmemCheck.mpr (h.handOut hz hf (hlive _) rfl),
      ((h.zone z (by simp [hz])).not_mem hf).2, outstanding_lowmemCheck⟩
  | grown n z f _ _ _ hn hf =>
    have h' := h.addZone (n := n)
    exact ⟨inv_lowmemCheck.mpr (h'.handOut hn hf (hlive _) rfl),
      ((h'.zone z (by simp [hn])).not_mem hf).2, outstanding_lowmemCheck⟩

/-- The pool after `f` went back onto the free list of its zone with the header `x`. -/
def giveBack (p : Pool) (f : FrameId) (x : Frame) : Pool :=
  { p.setFrame f x with
    zones := p.zones.map fun z => if z.id = f.zone then returnToZone f z else z
    framesUsed := p.framesUsed - 1
    outstanding := p.outstanding.erase f }

theorem sum_used_giveBack (hn : (zs.map Zone.id).Nodup) (hz : z ∈ zs) (hid : z.id = f.zone) :
    ((zs.map fun z => if z.id = f.zone then returnToZone f z else z).map Zone.framesUsed).sum =
      (zs.map Zone.framesUsed).sum - 1 := by
  induction zs with
  | nil => cases hz
  | cons y zs ih =>
    obtain ⟨hy, hn⟩ := List.nodup_cons.mp hn
    simp only [List.map_cons, List.sum_cons]
    rcases List.mem_cons.mp hz with rfl | hz
    · -- no later zone has the same name
      have hrest : ∀ z' ∈ zs, (if z'.id = f.zone then returnToZone f z' else z') = z' :=
        fun z' hz' => if_neg fun e => hy (by
          rw [hid, ← e]; exact List.mem_map_of_mem hz')
      rw [List.map_congr_left hrest, List.map_id', if_pos hid]
      change z.framesUsed - 1 + _ = _
      omega
    · have hne : y.id ≠ f.zone := fun e => hy (by
        rw [e, ← hid]; exact List.mem_map_of_mem hz)
      rw [if_neg hne, ih hn hz]
      omega

theorem ids_giveBack :
    (zs.map fun z => if z.id = f.zone then returnToZone f z else z).map Zone.id =
      zs.map Zone.id := by
  rw [List.map_map]
  refine List.map_congr_left fun z _ => ?_
  simp only [Function.comp_apply]
  split <;> rfl

theorem Inv.giveBack {x : Frame} (h : Inv p) (hf : f ∈ p.outstanding) (hz : z ∈ p.zones)
    (hid : z.id = f.zone) (hn : x.next = z.availableFrames) : Inv (giveBack p f x) := by
  have hmem : ∀ {g}, g ∈ p.outstanding.erase f → g ∈ p.outstanding ∧ g ≠ f := fun hg =>
    ⟨List.mem_of_mem_erase hg, fun e => h.out_nodup.not_mem_erase (e ▸ hg)⟩
  constructor
  case ids =>
    change ((p.zones.map _).map Zone.id).Nodup
    rw [ids_giveBack]
    exact h.ids
  case fresh =>
    intro z' hz'
    have hz' : z'.id ∈ (p.zones.map Zone.id) := ids_giveBack (f := f) ▸ List.mem_map_of_mem hz'
    obtain ⟨y, hy, he⟩ := List.mem_map.mp hz'
    exact he ▸ h.fresh y hy
  case zone =>
    intro z' hz'
    obtain ⟨y, hy, rfl⟩ := List.mem_map.mp hz'
    split
    · -- the zone of `f` is unique
      next hyf =>
      obtain rfl : y = z := List.inj_on_of_nodup_map h.ids hy hz (hyf.trans hid.symm)
      exact (h.zone y hy).giveBack hyf.symm hf h.out_nodup (hn ▸ next_setFrame)
    · next hyf =>
      refine (h.zone y hy).congr (fun g hg => ?_) ?_
      · change _ = (p.setFrame f x).next g
        rw [next_setFrame, Function.update_of_ne]
        rintro rfl
        exact hyf hg.symm
      · change _ = inZone (p.outstanding.erase f) y
        rw [inZone_erase h.out_nodup, List.erase_of_not_mem]
        exact fun hm => hyf (mem_inZone.mp hm).2.symm
  case out_nodup => exact h.out_nodup.erase f
  case out_zone =>
    intro g hg
    obtain ⟨y, hy, he⟩ := h.out_zone g (hmem hg).1
    refine ⟨_, List.mem_map_of_mem hy, ?_⟩
    split <;> exact he
  case live =>
    intro g hg
    simpa [Pool.giveBack, setFrame, (hmem hg).2] using h.live g (hmem hg).1
  case used =>
    change p.framesUsed - 1 = _
    rw [h.used]
    exact (sum_used_giveBack h.ids hz hid).symm

/-- The header that `ft_frame_return` leaves in a frame of the zone `z`. -/
def returnedFrame (x : Frame) (z : Zone) : Frame :=
  { x with
    type := .free, next := z.availableFrames, lastSeenByFile := none, lastSeenByLine := 0
    data := if z.eraseOnReturn then fun _ => 0 else x.data }

theorem frameReturn_step (h : Inv p) (hf : f ∈ p.outstanding) :
    wp E (frameReturn f) (fun _ q => ∃ z ∈ p.zones, z.id = f.zone ∧
      q = (giveBack p f (returnedFrame (p.heap f) z)).lowmemCheck true) p := by
  obtain ⟨ht, hfile, hline⟩ := h.live f hf
  obtain ⟨z, hz, hid⟩ := h.out_zone f hf
  simp only [frameReturn, wp_bind, wp_get, if_neg ht, if_neg hfile, if_neg hline]
  cases hfind : p.zones.find? fun z => z.id = f.zone with
  | none => exact absurd hid (by simpa using List.find?_eq_none.mp hfind z hz)
  | some y =>
    have hy := List.mem_of_find?_eq_some hfind
    have hyid : y.id = f.zone := by simpa using List.find?_some hfind
    exact ⟨y, hy, hyid, rfl⟩

theorem frameReturn_wp (h : Inv p) (hf : f ∈ p.outstanding) :
    wp E (frameReturn f) (fun _ q => Inv q ∧ q.outstanding = p.outstanding.erase f) p := by
  refine wp_mono (frameReturn_step h hf) ?_
  rintro _ q ⟨z, hz, hid, rfl⟩
  exact ⟨inv_lowmemCheck.mpr (h.giveBack hf hz hid rfl), outstanding_lowmemCheck⟩

/-- The zones that a heartbeat deletes. -/
def Expired (now : ℚ) (z : Zone) : Prop :=
  z.freeable ∧ z.framesUsed ≤ 0 ∧ ¬z.freeOnHb ∧ z.freeAt < now

instance (now : ℚ) (z : Zone) : Decidable (Expired now z) :=
  inferInstanceAs (Decidable (_ ∧ _))

/-- A heartbeat schedules the release of a zone that became idle. -/
def schedule (now timeout : ℚ) (z : Zone) : Zone :=
  if z.freeable ∧ z.framesUsed ≤ 0 ∧ z.freeOnHb then
    { z with freeAt := now + timeout, freeOnHb := false }
  else z

/-- A heartbeat never aborts: the zones it deletes have all frames returned. -/
theorem heartbeatZones_eq (zs : List Zone) :
    heartbeatZones now timeout zs =
      .ok ((zs.filter fun z => ¬Expired now z).map (schedule now timeout)) := by
  induction zs with
  | nil => rfl
  | cons z zs ih =>
    rw [heartbeatZones, ih]
    by_cases hk : ¬z.freeable ∨ z.framesUsed > 0
    · have hs : ¬(z.freeable ∧ z.framesUsed ≤ 0 ∧ z.freeOnHb) := by grind
      have he : ¬Expired now z := by grind [Expired]
      rw [if_pos hk, List.filter_cons_of_pos (by simpa using he), List.map_cons, schedule,
        if_neg hs]
      rfl
    rw [if_neg hk]
    by_cases hb : z.freeOnHb
    · have hs : z.freeable ∧ z.framesUsed ≤ 0 ∧ z.freeOnHb := by grind
      have he : ¬Expired now z := by grind [Expired]
      rw [if_pos hb, List.filter_cons_of_pos (by simpa using he), List.map_cons, schedule,
        if_pos hs]
      rfl
    rw [if_neg hb]
    have hs : ¬(z.freeable ∧ z.framesUsed ≤ 0 ∧ z.freeOnHb) := by grind
    by_cases ht : z.freeAt ≥ now
    · have he : ¬Expired now z := by grind [Expired]
      rw [if_pos ht, List.filter_cons_of_pos (by simpa using he), List.map_cons, schedule,
        if_neg hs]
      rfl
    · have he : Expired now z := by grind [Expired]
      rw [if_neg ht, if_neg fun hu => hk (Or.inr hu), List.filter_cons_of_neg (by simpa using he)]

@[simp] theorem schedule_id : (schedule now timeout z).id = z.id := by
  unfold schedule; split <;> rfl

@[simp] theorem schedule_framesUsed : (schedule now timeout z).framesUsed = z.framesUsed := by
  unfold schedule; split <;> rfl

theorem ZoneInv.schedule (h : ZoneInv next out z) :
    ZoneInv next out (Pool.schedule now timeout z) := by
  unfold Pool.schedule
  split
  · exact ⟨h.free, h.used⟩
  · exact h

/-- A zone with a frame in use has not expired. -/
theorem Inv.not_expired (h : Inv p) (hf : f ∈ p.outstanding) (hz : z ∈ p.zones)
    (hid : z.id = f.zone) : ¬Expired now z := fun he => by
  have hu := (h.zone z hz).used
  have hl := List.length_pos_of_mem (mem_inZone.mpr ⟨hf, hid.symm⟩)
  have := he.2.1
  omega

/-- A deleted zone counts no frame in use. -/
theorem Inv.used_expired (h : Inv p) (hz : z ∈ p.zones) (he : Expired now z) :
    z.framesUsed = 0 := by
  have hu := (h.zone z hz).used
  have := he.2.1
  omega

theorem sum_used_heartbeat (hz : ∀ z ∈ zs, Expired now z → z.framesUsed = 0) :
    (((zs.filter fun z => ¬Expired now z).map (schedule now timeout)).map Zone.framesUsed).sum =
      (zs.map Zone.framesUsed).sum := by
  induction zs with
  | nil => rfl
  | cons z zs ih =>
    have ih := ih fun z' hz' => hz z' (List.mem_cons_of_mem _ hz')
    by_cases he : Expired now z
    · rw [List.filter_cons_of_neg (by simpa using he), ih, List.map_cons, List.sum_cons,
        hz z (by simp) he, zero_add]
    · rw [List.filter_cons_of_pos (by simpa using he)]
      simp only [List.map_cons, List.sum_cons, schedule_framesUsed, ih]

theorem onHeartbeat_step : wp E (onHeartbeat now timeout) (fun _ q =>
    q = { p with zones := (p.zones.filter fun z => ¬Expired now z).map (schedule now timeout) })
      p := by
  rw [onHeartbeat, wp_bind, wp_get, heartbeatZones_eq]
  rfl

theorem onHeartbeat_wp (h : Inv p) :
    wp E (onHeartbeat now timeout) (fun _ q =>
      Inv q ∧ q.outstanding = p.outstanding ∧
        ∀ f ∈ p.outstanding, ∃ z ∈ q.zones, z.id = f.zone) p := by
  have hzone : ∀ f ∈ p.outstanding,
      ∃ z ∈ (p.zones.filter fun z => ¬Expired now z).map (schedule now timeout),
        z.id = f.zone := fun f hf => by
    obtain ⟨z, hz, hid⟩ := h.out_zone f hf
    refine ⟨_, List.mem_map_of_mem (List.mem_filter.mpr ⟨hz, ?_⟩), schedule_id.trans hid⟩
    simpa using h.not_expired hf hz hid
  have hids : (((p.zones.filter fun z => ¬Expired now z).map (schedule now timeout)).map
      Zone.id).Sublist (p.zones.map Zone.id) := by
    rw [List.map_map, show Zone.id ∘ schedule now timeout = Zone.id from
      funext fun z => schedule_id]
    exact List.filter_sublist.map _
  refine wp_mono onHeartbeat_step ?_
  rintro _ q rfl
  refine ⟨?_, rfl, hzone⟩
  constructor
  case ids => exact hids.nodup h.ids
  case fresh =>
    intro z hz
    obtain ⟨y, hy, he⟩ := List.mem_map.mp (hids.subset (List.mem_map_of_mem hz))
    exact he ▸ h.fresh y hy
  case zone =>
    intro z hz
    obtain ⟨y, hy, rfl⟩ := List.mem_map.mp hz
    exact (h.zone y (List.mem_filter.mp hy).1).schedule
  case out_nodup => exact h.out_nodup
  case out_zone => exact hzone
  case live => exact h.live
  case used => exact h.used.trans (sum_used_heartbeat fun z hz => h.used_expired hz).symm

/-- Owners may write any link into the frames they hold. -/
theorem Inv.setNext {next : Option FrameId} (h : Inv p) (hf : f ∈ p.outstanding) :
    Inv (p.setFrame f { p.heap f with next }) := by
  constructor
  case ids => exact h.ids
  case fresh => exact h.fresh
  case zone =>
    intro z hz
    obtain ⟨⟨xs, hc, hp⟩, hu⟩ := h.zone z hz
    refine ⟨⟨xs, ?_, hp⟩, hu⟩
    rw [next_setFrame]
    refine hc.update fun hx => ?_
    have hd := (List.nodup_append.mp (hp.nodup_iff.mpr z.frames_nodup)).2.2
    exact hd f hx f (mem_inZone.mpr ⟨hf, ZoneInv.chain_mem hp hx⟩) rfl
  case out_nodup => exact h.out_nodup
  case out_zone => exact h.out_zone
  case live =>
    intro g hg
    by_cases e : g = f
    · subst e; simpa [setFrame, Live] using h.live g hg
    · simpa [setFrame, e] using h.live g hg
  case used => exact h.used

end Operations

section Runs

/-- What users of a pool rely on. -/
structure Owned (p : Pool) : Prop where
  zone : ∀ z ∈ p.zones, ∃ free, Chain p.next z.availableFrames free ∧ free.Nodup ∧
    (free ++ inZone p.outstanding z).Perm z.frames
  zone_used : ∀ z ∈ p.zones, z.framesUsed = (inZone p.outstanding z).length
  used : p.framesUsed = (p.zones.map Zone.framesUsed).sum
  borrow : ∀ alloc type file line, type ≠ .free → line ≠ 0 →
    wp (fun _ => False) (borrowReal alloc type file line) (fun r q =>
      match r with
      | none => q = p
      | some f => f ∉ p.outstanding ∧ q.outstanding = f :: p.outstanding) p
  frameReturn : ∀ f ∈ p.outstanding,
    wp (fun _ => False) (frameReturn f) (fun _ q => q.outstanding = p.outstanding.erase f) p
  heartbeat : ∀ now timeout,
    wp (fun _ => False) (onHeartbeat now timeout) (fun _ q =>
      q.outstanding = p.outstanding ∧ ∀ f ∈ p.outstanding, ∃ z ∈ q.zones, z.id = f.zone) p

theorem Inv.owned (h : Inv p) : Owned p where
  zone z hz := by
    obtain ⟨xs, hc, hp⟩ := (h.zone z hz).free
    exact ⟨xs, hc, hc.nodup, hp⟩
  zone_used z hz := (h.zone z hz).used
  used := h.used
  borrow _ _ _ _ ht hl := wp_mono (borrowReal_wp h ht hl) fun _ _ hq => hq.2
  frameReturn _ hf := wp_mono (frameReturn_wp h hf) fun _ _ hq => hq.2
  heartbeat _ _ := wp_mono (onHeartbeat_wp h) fun _ _ hq => hq.2

/-- Operations keep the invariant and never abort. -/
theorem exec_wp (h : Inv p) (op : Op) : wp (fun _ => False) (exec op) (fun _ => Inv) p := by
  cases op with
  | borrow alloc type file line =>
    rw [exec, wp_ite]
    refine ⟨fun _ => h, fun hc => ?_⟩
    obtain ⟨ht, hl⟩ := not_or.mp hc
    rw [wp_bind]
    exact wp_mono (borrowReal_wp h ht hl) fun _ _ hq => hq.1
  | frameReturn f =>
    rw [exec, wp_bind, wp_get, wp_ite]
    exact ⟨fun hf => wp_mono (frameReturn_wp h hf) fun _ _ hq => hq.1, fun _ => h⟩
  | heartbeat now timeout => exact wp_mono (onHeartbeat_wp h) fun _ _ hq => hq.1
  | setNext f next =>
    rw [exec, wp_bind, wp_get, wp_ite]
    exact ⟨fun hf => h.setNext hf, fun _ => h⟩

/-- Every run ends normally. In the pool it leaves a frame has one owner, the free lists and
counters agree with that, and the next borrow, return or heartbeat respects it. -/
theorem run_owned (heap : FrameId → Frame) (ops : List Op) :
    wp (fun _ => False) (run ops) (fun _ => Owned) (init heap) := by
  refine wp_mono (wp_forM (fun op _ q hq => exec_wp hq op) (inv_init heap)) ?_
  exact fun _ _ h => h.owned

end Runs

end Pool

/-- The frame keeps its place in the queue and its header. -/
structure Frame.SameHeader (x y : Frame) : Prop where
  next : y.next = x.next
  type : y.type = x.type
  file : y.lastSeenByFile = x.lastSeenByFile
  line : y.lastSeenByLine = x.lastSeenByLine

namespace Frame.SameHeader

variable {x y z : Frame} {v : Vec} {n : ℕ} {more : Bool}

theorem trans (h : x.SameHeader y) (h' : y.SameHeader z) : x.SameHeader z :=
  ⟨h'.next.trans h.next, h'.type.trans h.type, h'.file.trans h.file, h'.line.trans h.line⟩

theorem live (h : x.SameHeader y) (hx : Pool.Live x) : Pool.Live y := by
  rwa [Pool.Live, h.type, h.file, h.line]

theorem of_advanceVec (h : x.advanceVec v n = .ok y) : x.SameHeader y := by
  unfold Frame.advanceVec at h
  cases hv : v.advance n with
  | error e =>
    rw [hv] at h
    cases h
  | ok v' =>
    rw [hv] at h
    cases h
    exact ⟨rfl, rfl, rfl, rfl⟩

theorem of_nextVec (h : x.nextVec = .ok (more, y)) : x.SameHeader y := by
  unfold Frame.nextVec at h
  split at h
  · cases h
    exact ⟨rfl, rfl, rfl, rfl⟩
  · split at h <;> cases h
    exact ⟨rfl, rfl, rfl, rfl⟩

theorem of_formatSimple (h : x.formatSimple = .ok y) : x.SameHeader y := by
  unfold Frame.formatSimple at h
  cases hc : x.formatEmpty.createVec 0 (toSize (x.capacity - SIZEOF_VEC)) with
  | error e =>
    rw [hc] at h
    cases h
  | ok r =>
    rw [hc] at h
    cases h
    rcases Frame.createVec_ok hc with ⟨-, hy, -⟩ | ⟨-, hy, -⟩
    all_goals
      rw [hy]
      exact ⟨rfl, rfl, rfl, rfl⟩

end Frame.SameHeader

end FrameTransporter
