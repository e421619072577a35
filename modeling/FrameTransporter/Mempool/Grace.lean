import FrameTransporter.Mempool.Ownership
import Mathlib.Data.List.Induction

/-! # The grace time of a zone

A zone that has all its frames back may be used again soon, so a heartbeat first
schedules its release and a later one carries it out. The fields of a zone that
remember this are tied to what happened to the zone: the log of a run tells when
its last frame was returned, which heartbeat came first after that, and whether
its time has passed.
-/

namespace FrameTransporter

open Hoare

namespace Pool

/-- What happened to a pool. -/
inductive PoolEvent
  | borrowed (f : FrameId)
  | returned (f : FrameId)
  | heartbeat (now timeout : ℚ)
  deriving DecidableEq

/-- The event is about a frame of the zone. -/
def PoolEvent.Touches (id : ℕ) : PoolEvent → Prop
  | borrowed f | returned f => f.zone = id
  | heartbeat .. => False

def PoolEvent.IsHeartbeat : PoolEvent → Prop
  | heartbeat .. => True
  | _ => False

/-- What an operation that led from `p` to `q` adds to the log. -/
def events (p q : Pool) : Op → List PoolEvent
  | .borrow .. =>
    if q.outstanding = p.outstanding then [] else q.outstanding.head?.toList.map .borrowed
  | .frameReturn f => if f ∈ p.outstanding then [.returned f] else []
  | .heartbeat now timeout => [.heartbeat now timeout]
  | .setNext .. => []

/-- A run with its log. -/
def runLog : List Op → PoolM (List PoolEvent)
  | [] => return []
  | op :: ops => do
    let p ← get
    exec op
    let q ← get
    let log ← runLog ops
    return events p q op ++ log

/-- The last thing that happened to the zone was the return of a frame, and the first heartbeat
after it came at the time `t` and with the given timeout. -/
def IdleSince (log : List PoolEvent) (id : ℕ) (t timeout : ℚ) : Prop :=
  ∃ pre f mid post, log = pre ++ .returned f :: (mid ++ .heartbeat t timeout :: post) ∧
    f.zone = id ∧ (∀ e ∈ mid ++ post, ¬e.Touches id) ∧ ∀ e ∈ mid, ¬e.IsHeartbeat

/-- What a heartbeat at the time `now` should release: a zone that may be freed, of which no frame
is in use, and whose grace time is over. -/
def Due (log : List PoolEvent) (now : ℚ) (p : Pool) (z : Zone) : Prop :=
  z.freeable = true ∧ inZone p.outstanding z = [] ∧
    ∃ t timeout, IdleSince log z.id t timeout ∧ t + timeout < now

/-- How far a zone is on its way to its release. -/
inductive Grace
  | used
  | idle
  | scheduled (t timeout : ℚ)
  deriving DecidableEq

namespace Grace

def step (id : ℕ) (g : Grace) : PoolEvent → Grace
  | .borrowed f => if f.zone = id then used else g
  | .returned f => if f.zone = id then idle else g
  | .heartbeat now timeout =>
    match g with
    | idle => scheduled now timeout
    | g => g

/-- How far a log leads a zone. -/
def after (id : ℕ) (log : List PoolEvent) : Grace := log.foldl (step id) used

variable {id : ℕ} {g : Grace} {e : PoolEvent} {log es : List PoolEvent} {t timeout : ℚ}

theorem after_append : after id (log ++ es) = es.foldl (step id) (after id log) :=
  List.foldl_append

theorem step_of_not_touches (h : ¬e.Touches id) (hb : ¬e.IsHeartbeat) : step id g e = g := by
  cases e with
  | borrowed f | returned f => exact if_neg h
  | heartbeat now timeout => exact absurd trivial hb

theorem step_scheduled (h : ¬e.Touches id) :
    step id (scheduled t timeout) e = scheduled t timeout := by
  cases e with
  | borrowed f | returned f => exact if_neg h
  | heartbeat now timeout => rfl

theorem foldl_quiet (h : ∀ e ∈ es, ¬e.Touches id) (hb : ∀ e ∈ es, ¬e.IsHeartbeat) :
    es.foldl (step id) g = g := by
  induction es with
  | nil => rfl
  | cons e es ih =>
    rw [List.foldl_cons, step_of_not_touches (h e (by simp)) (hb e (by simp))]
    exact ih (fun e he => h e (List.mem_cons_of_mem _ he))
      fun e he => hb e (List.mem_cons_of_mem _ he)

theorem foldl_scheduled (h : ∀ e ∈ es, ¬e.Touches id) :
    es.foldl (step id) (scheduled t timeout) = scheduled t timeout := by
  induction es with
  | nil => rfl
  | cons e es ih =>
    rw [List.foldl_cons, step_scheduled (h e (by simp))]
    exact ih fun e he => h e (List.mem_cons_of_mem _ he)

/-- The zone is idle, and no heartbeat came since the return. -/
theorem exists_of_idle (h : after id log = idle) : ∃ pre f mid, log = pre ++ .returned f :: mid ∧
    f.zone = id ∧ (∀ e ∈ mid, ¬e.Touches id) ∧ ∀ e ∈ mid, ¬e.IsHeartbeat := by
  induction log using List.reverseRecOn with
  | nil => cases h
  | append_singleton log e ih =>
    rw [after_append] at h
    by_cases hf : ∃ f, e = .returned f ∧ f.zone = id
    · obtain ⟨f, rfl, hf⟩ := hf
      exact ⟨log, f, [], rfl, hf, by simp, by simp⟩
    · have hstay : after id log = idle ∧ ¬e.Touches id ∧ ¬e.IsHeartbeat := by
        cases e with
        | borrowed f =>
          by_cases hz : f.zone = id
          · simp [step, hz] at h
          · exact ⟨by simpa [step, hz] using h, hz, fun h => h⟩
        | returned f =>
          have hz : f.zone ≠ id := fun hz => hf ⟨f, rfl, hz⟩
          exact ⟨by simpa [step, hz] using h, hz, fun h => h⟩
        | heartbeat now timeout =>
          cases hg : after id log <;> simp [step, hg] at h
      obtain ⟨pre, f, mid, rfl, hz, hmid, hbeat⟩ := ih hstay.1
      refine ⟨pre, f, mid ++ [e], by simp, hz, ?_, ?_⟩
      · simpa [or_imp, forall_and] using ⟨hmid, hstay.2.1⟩
      · simpa [or_imp, forall_and] using ⟨hbeat, hstay.2.2⟩

/-- The release of a zone is scheduled by the first heartbeat after the return. -/
theorem scheduled_iff : after id log = scheduled t timeout ↔ IdleSince log id t timeout := by
  constructor
  · intro h
    induction log using List.reverseRecOn with
    | nil => cases h
    | append_singleton log e ih =>
      rw [after_append] at h
      by_cases hlog : after id log = scheduled t timeout ∧ ¬e.Touches id
      · obtain ⟨pre, f, mid, post, rfl, hz, hquiet, hbeat⟩ := ih hlog.1
        refine ⟨pre, f, mid, post ++ [e], by simp, hz, ?_, hbeat⟩
        intro e' he'
        rw [← List.append_assoc, List.mem_append, List.mem_singleton] at he'
        rcases he' with he' | rfl
        · exact hquiet e' he'
        · exact hlog.2
      · cases e with
        | borrowed f | returned f =>
          by_cases hz : f.zone = id
          · simp [step, hz] at h
          · exact absurd ⟨by simpa [step, hz] using h, hz⟩ hlog
        | heartbeat now timeout' =>
          cases hg : after id log with
          | used => simp [step, hg] at h
          | scheduled t' timeout'' =>
            rw [hg] at hlog h
            exact absurd ⟨h, fun h => h⟩ hlog
          | idle =>
            obtain ⟨pre, f, mid, rfl, hz, hmid, hbeat⟩ := exists_of_idle hg
            simp only [List.foldl_cons, List.foldl_nil, hg, step, scheduled.injEq] at h
            obtain ⟨rfl, rfl⟩ := h
            exact ⟨pre, f, mid, [], by simp, hz, by simpa using hmid, hbeat⟩
  · rintro ⟨pre, f, mid, post, rfl, hz, hquiet, hbeat⟩
    have hmid : ∀ e ∈ mid, ¬e.Touches id := fun e he => hquiet e (List.mem_append_left _ he)
    have hpost : ∀ e ∈ post, ¬e.Touches id := fun e he => hquiet e (List.mem_append_right _ he)
    rw [after_append, List.foldl_cons, List.foldl_append, step, if_pos hz,
      foldl_quiet hmid hbeat, List.foldl_cons]
    exact foldl_scheduled hpost

end Grace

/-- The fields of an idle zone say how far it is. -/
def Timed (z : Zone) : Grace → Prop
  | .used => False
  | .idle => z.freeOnHb = true
  | .scheduled t timeout => z.freeOnHb = false ∧ z.freeAt = t + timeout

/-- The zones that may be freed and are idle agree with the log. -/
structure Logged (log : List PoolEvent) (p : Pool) : Prop where
  inv : Inv p
  timed : ∀ z ∈ p.zones, z.freeable = true → z.framesUsed = 0 → Timed z (Grace.after z.id log)

section Logged

variable {log : List PoolEvent} {p q : Pool} {z : Zone} {f : FrameId} {now timeout : ℚ}
  {alloc : Option NewZone} {type : FrameType} {file : String} {line : ℕ}

theorem Inv.framesUsed_zone_nonneg (h : Inv p) (hz : z ∈ p.zones) : 0 ≤ z.framesUsed := by
  rw [(h.zone z hz).used]
  omega

theorem logged_init (heap : FrameId → Frame) : Logged [] (init heap) where
  inv := inv_init heap
  timed := by simp [init]

/-- What happens to the other zones is not about this one. -/
theorem after_borrowed_of_ne (hz : f.zone ≠ z.id) :
    Grace.after z.id (log ++ [.borrowed f]) = Grace.after z.id log := by
  rw [Grace.after_append]
  exact if_neg hz

theorem after_returned_of_ne (hz : f.zone ≠ z.id) :
    Grace.after z.id (log ++ [.returned f]) = Grace.after z.id log := by
  rw [Grace.after_append]
  exact if_neg hz

theorem events_borrow (h : q.outstanding = f :: p.outstanding) :
    events p q (.borrow alloc type file line) = [.borrowed f] := by
  have hne : q.outstanding ≠ p.outstanding := by
    rw [h]
    exact List.cons_ne_self f p.outstanding
  rw [events, if_neg hne, h]
  rfl

/-- A zone that hands out a frame is in use, and the other zones are as before. -/
theorem Logged.handOut {pre post : List Zone} {x : Frame} (h : Inv p)
    (ht : ∀ z' ∈ pre ++ post, z'.freeable = true → z'.framesUsed = 0 →
      Timed z' (Grace.after z'.id log))
    (hz : p.zones = pre ++ z :: post) (hf : z.availableFrames = some f) (hx : Live x)
    (hn : x.next = none) :
    Logged (log ++ [.borrowed f]) ((handOut p pre z post f x).lowmemCheck false) := by
  have hmem : z ∈ p.zones := by simp [hz]
  have hid := ((h.zone z hmem).not_mem hf).1
  refine ⟨inv_lowmemCheck.mpr (h.handOut hz hf hx hn), fun z' hz' hfree hused => ?_⟩
  have hzones : ((Pool.handOut p pre z post f x).lowmemCheck false).zones =
      pre ++ take p z f :: post := by
    unfold lowmemCheck
    split <;> rfl
  rw [hzones] at hz'
  have hother : z' ∈ pre ∨ z' ∈ post → Timed z' (Grace.after z'.id (log ++ [.borrowed f])) := by
    intro hside
    rw [after_borrowed_of_ne fun e => (h.split_ids hz hside).2 (e.symm.trans hid)]
    exact ht z' (List.mem_append.mpr hside) hfree hused
  rcases List.mem_append.mp hz' with hz' | hz'
  · exact hother (Or.inl hz')
  · rcases List.mem_cons.mp hz' with rfl | hz'
    · have hnonneg := h.framesUsed_zone_nonneg hmem
      simp only [take] at hused
      omega
    · exact hother (Or.inr hz')

theorem logged_borrow (h : Logged log p) (htype : type ≠ .free) (hl : line ≠ 0) :
    wp (fun _ => False) (borrowReal alloc type file line) (fun _ q =>
      Logged (log ++ events p q (.borrow alloc type file line)) q) p := by
  refine wp_mono (wp_and (borrowReal_wp h.inv htype hl) (borrowReal_step h.inv hl)) ?_
  rintro r q ⟨⟨_, hout⟩, hs⟩
  cases hs with
  | exhausted =>
    rw [events, if_pos rfl, List.append_nil]
    exact h
  | found pre z post f hz hf =>
    rw [events_borrow hout.2]
    refine Logged.handOut h.inv (fun z' hz' => h.timed z' ?_) hz hf (live_resetFrame htype hl) rfl
    rw [hz]
    rcases List.mem_append.mp hz' with hz' | hz'
    · exact List.mem_append_left _ hz'
    · exact List.mem_append_right _ (List.mem_cons_of_mem _ hz')
  | grown n z f _ _ _ hn hf =>
    have hout' : (((p.addZone n).handOut p.zones z [] f
        (resetFrame ((p.addZone n).heap f) type file line)).lowmemCheck false).outstanding =
        f :: p.outstanding := outstanding_lowmemCheck
    rw [events_borrow hout']
    refine Logged.handOut (h.inv.addZone (n := n)) (fun z' hz' => h.timed z' ?_) hn hf
      (live_resetFrame htype hl) rfl
    simpa using hz'

theorem logged_frameReturn (h : Logged log p) (hf : f ∈ p.outstanding) :
    wp (fun _ => False) (frameReturn f) (fun _ q => Logged (log ++ [.returned f]) q) p := by
  refine wp_mono (frameReturn_step h.inv hf) ?_
  rintro _ q ⟨z, hz, hid, rfl⟩
  refine ⟨inv_lowmemCheck.mpr (h.inv.giveBack hf hz hid rfl), fun z' hz' hfree hused => ?_⟩
  have hzones : ((giveBack p f (returnedFrame (p.heap f) z)).lowmemCheck true).zones =
      p.zones.map fun z => if z.id = f.zone then returnToZone f z else z := by
    unfold lowmemCheck
    split <;> rfl
  rw [hzones] at hz'
  obtain ⟨y, hy, rfl⟩ := List.mem_map.mp hz'
  by_cases hyf : y.id = f.zone
  · rw [if_pos hyf] at hused ⊢
    have hafter : Grace.after (returnToZone f y).id (log ++ [.returned f]) = .idle := by
      rw [Grace.after_append]
      exact if_pos hyf.symm
    rw [hafter]
    exact decide_eq_true hused
  · rw [if_neg hyf] at hfree hused ⊢
    rw [after_returned_of_ne (Ne.symm hyf)]
    exact h.timed y hy hfree hused

/-- A heartbeat schedules the release of the zones that are idle. -/
theorem logged_onHeartbeat (h : Logged log p) :
    wp (fun _ => False) (onHeartbeat now timeout)
      (fun _ q => Logged (log ++ [.heartbeat now timeout]) q) p := by
  refine wp_mono (wp_and (onHeartbeat_wp h.inv) onHeartbeat_step) ?_
  rintro _ q ⟨⟨hinv, -⟩, rfl⟩
  refine ⟨hinv, fun z' hz' hfree hused => ?_⟩
  obtain ⟨z, hz, rfl⟩ := List.mem_map.mp hz'
  rw [schedule_framesUsed] at hused
  rw [schedule_id, Grace.after_append, List.foldl_cons, List.foldl_nil]
  have hfree : z.freeable = true := by
    unfold schedule at hfree
    split at hfree <;> exact hfree
  have ht := h.timed z (List.mem_filter.mp hz).1 hfree hused
  cases hg : Grace.after z.id log with
  | used =>
    rw [hg] at ht
    exact ht.elim
  | idle =>
    rw [hg] at ht
    rw [schedule, if_pos ⟨hfree, hused.le, ht⟩]
    exact ⟨rfl, rfl⟩
  | scheduled t timeout' =>
    rw [hg] at ht
    have hnot : ¬(z.freeable = true ∧ z.framesUsed ≤ 0 ∧ z.freeOnHb = true) := by
      rw [ht.1]
      exact fun hc => Bool.noConfusion hc.2.2
    rw [schedule, if_neg hnot]
    exact ht

theorem logged_exec (op : Op) (h : Logged log p) :
    wp (fun _ => False) (exec op) (fun _ q => Logged (log ++ events p q op) q) p := by
  cases op with
  | borrow alloc type file line =>
    rw [exec, wp_ite]
    refine ⟨fun _ => ?_, fun hc => ?_⟩
    · rw [wp_pure, events, if_pos rfl, List.append_nil]
      exact h
    · obtain ⟨htype, hl⟩ := not_or.mp hc
      rw [wp_bind]
      exact logged_borrow h htype hl
  | frameReturn f =>
    rw [exec, wp_bind, wp_get, wp_ite]
    refine ⟨fun hf => ?_, fun hf => ?_⟩
    · simp only [events, if_pos hf]
      exact logged_frameReturn h hf
    · rw [wp_pure, events, if_neg hf, List.append_nil]
      exact h
  | heartbeat now timeout => exact logged_onHeartbeat h
  | setNext f next =>
    rw [exec, wp_bind, wp_get, wp_ite]
    simp only [events, List.append_nil]
    exact ⟨fun hf => ⟨h.inv.setNext hf, h.timed⟩, fun _ => h⟩

theorem logged_runLog (ops : List Op) (h : Logged log p) :
    wp (fun _ => False) (runLog ops) (fun new q => Logged (log ++ new) q) p := by
  induction ops generalizing log p with
  | nil =>
    rw [runLog, wp_pure, List.append_nil]
    exact h
  | cons op ops ih =>
    rw [runLog, wp_bind, wp_get, wp_bind]
    refine wp_mono (logged_exec op h) fun _ q hq => ?_
    rw [wp_bind, wp_get, wp_bind]
    refine wp_mono (ih hq) fun new r hr => ?_
    rw [wp_pure, ← List.append_assoc]
    exact hr

/-- A heartbeat finds a zone expired exactly when it is due. -/
theorem Logged.expired_iff (h : Logged log p) (hz : z ∈ p.zones) :
    Expired now z ↔ Due log now p z := by
  have hused := (h.inv.zone z hz).used
  have hempty : inZone p.outstanding z = [] ↔ z.framesUsed = 0 := by
    rw [hused, ← List.length_eq_zero_iff]
    omega
  unfold Expired Due
  simp only [hempty, ← Grace.scheduled_iff]
  constructor
  · rintro ⟨hfree, hle, hhb, hat⟩
    have hzero : z.framesUsed = 0 := le_antisymm hle (h.inv.framesUsed_zone_nonneg hz)
    have ht := h.timed z hz hfree hzero
    cases hg : Grace.after z.id log with
    | used =>
      rw [hg] at ht
      exact ht.elim
    | idle =>
      rw [hg] at ht
      exact absurd ht hhb
    | scheduled t timeout =>
      rw [hg] at ht
      exact ⟨hfree, hzero, t, timeout, rfl, ht.2 ▸ hat⟩
  · rintro ⟨hfree, hzero, t, timeout, hg, hlt⟩
    have ht := h.timed z hz hfree hzero
    rw [hg] at ht
    exact ⟨hfree, hzero.le, by simp [ht.1], ht.2 ▸ hlt⟩

/-- After every run a heartbeat deletes exactly the zones that are due, and keeps the others in
their order. -/
theorem runLog_releases (heap : FrameId → Frame) (ops : List Op) (now timeout : ℚ) :
    wp (fun _ => False) (runLog ops) (fun log p =>
      wp (fun _ => False) (onHeartbeat now timeout) (fun _ q =>
        ∃ keep : Zone → Bool, (∀ z ∈ p.zones, keep z = false ↔ Due log now p z) ∧
          q.zones.map Zone.id = (p.zones.filter keep).map Zone.id) p) (init heap) := by
  refine wp_mono (logged_runLog ops (logged_init heap)) fun log p h => ?_
  rw [List.nil_append] at h
  refine wp_mono onHeartbeat_step ?_
  rintro _ q rfl
  refine ⟨fun z => ¬Expired now z, fun z hz => ?_, ?_⟩
  · rw [decide_eq_false_iff_not, not_not]
    exact h.expired_iff hz
  · rw [List.map_map]
    exact List.map_congr_left fun z _ => schedule_id

end Logged

end Pool

end FrameTransporter
