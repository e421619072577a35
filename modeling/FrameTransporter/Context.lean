import Mathlib.Algebra.Field.Rat
import Mathlib.Data.NNRat.Defs
import FrameTransporter.Histories.EventLoop

/-! # The life of a context

A context runs an event loop with watchers of its own: for signals, for a heartbeat,
for preparing to wait and, after it was told to stop, for a shutdown timer. None of
them keeps the loop running. Whatever happens in which order, the loop has no
references when no watcher of the application is active, subscribers are told to exit
once, and a signal ends the process only some time after the context was told to stop.
-/

namespace FrameTransporter

open EventLoop

/-- The watchers of a context, and those of the application. -/
inductive Watcher
  | sigint
  | sigterm
  | sighup
  | heartbeat
  | prepare
  | shutdown
  | user (n : ℕ)
  deriving DecidableEq

/-- The watchers whose reference is not given up. -/
def Watcher.Keeps : Watcher → Prop
  | .user _ => True
  | _ => False

instance : DecidablePred Watcher.Keeps
  | .user _ => inferInstanceAs (Decidable True)
  | .sigint | .sigterm | .sighup | .heartbeat | .prepare | .shutdown =>
    inferInstanceAs (Decidable False)

inductive Signal
  | SIGINT
  | SIGTERM
  | SIGHUP
  deriving DecidableEq

def Signal.watcher : Signal → Watcher
  | .SIGINT => .sigint
  | .SIGTERM => .sigterm
  | .SIGHUP => .sighup

/-- `enum ft_exit_phase`. -/
inductive ExitPhase
  | FT_EXIT_PHASE_POLITE
  deriving DecidableEq

/-- What a context publishes: the messages for the topics of a heartbeat and of the exit. -/
inductive ContextMessage
  | heartbeat (now : ℚ)
  | exit (phase : ExitPhase)
  deriving DecidableEq

/-- The part of `struct ft_config` for a context. -/
structure ContextConfig where
  heartbeatInterval : ℚ≥0
  lagDetectorSensitivity : ℚ

/-- `struct ft_context` with the state of its event loop and the time of it, in exact numbers in
place of `double`s. A time that is not a number is `none`. The last fields are not in memory: what
was published, the lags that were warned of, how often the log was told of a `SIGHUP`, whether a
signal ended the process, and when it was told to stop. -/
structure FtContext (σ : Type) where
  loop : σ
  now : ℚ
  running : Bool
  shutdownCounter : ℕ
  heartbeatAt : ℚ
  startedAt : ℚ
  shutdownAt : Option ℚ
  published : List ContextMessage
  lags : List ℚ
  sighups : ℕ
  killed : Bool
  requested : List ℚ

namespace FtContext

variable {σ : Type} (ev : Ops Watcher σ)

/-- A watcher of the context is started and its reference given up. -/
def install (a : Watcher) (l : σ) : σ := ev.unref (ev.start a l)

/-- `ft_context_init` in a process that has no context, with an event loop and the time of it. It
may find no index for the data of streams. -/
def init (loop : σ) (now : ℚ) (sslGetExNewIndex : Bool) : Bool × FtContext σ :=
  (sslGetExNewIndex,
    { loop := install ev .prepare (install ev .heartbeat (install ev .sighup (install ev .sigterm
        (install ev .sigint loop))))
      now
      running := true
      shutdownCounter := 0
      heartbeatAt := 0
      startedAt := now
      shutdownAt := none
      published := []
      lags := []
      sighups := 0
      killed := false
      requested := [] })

def publish (m : ContextMessage) (c : FtContext σ) : FtContext σ :=
  { c with published := c.published ++ [m] }

def setLoop (loop : σ) (c : FtContext σ) : FtContext σ := { c with loop }

/-- The context is told to stop. -/
def request (c : FtContext σ) : FtContext σ := { c with requested := c.requested ++ [c.now] }

/-- `ft_context_stop`. -/
def stop (c : FtContext σ) : FtContext σ :=
  if c.running = true then
    ({ c.request with running := false, shutdownAt := some c.now }.publish
      (.exit .FT_EXIT_PHASE_POLITE)).setLoop (install ev .shutdown c.loop)
  else c.request

/-- `_ft_context_on_sighup`. -/
def onSighup (c : FtContext σ) : FtContext σ := { c with sighups := c.sighups + 1 }

/-- The handlers of the signals: `_ft_context_on_sigexit` and `_ft_context_on_sighup`. -/
def onSignal : Signal → FtContext σ → FtContext σ
  | .SIGINT | .SIGTERM => stop ev
  | .SIGHUP => onSighup

/-- The handler of a signal is removed in `_ft_context_on_shutdown_timer`. -/
def disable (a : Watcher) (l : σ) : σ := if a ∈ ev.active l then ev.stop a (ev.ref l) else l

/-- `_ft_context_on_shutdown_timer`. -/
def onShutdownTimer (c : FtContext σ) : FtContext σ :=
  { c with
    shutdownCounter := (c.shutdownCounter + 1) % 2 ^ 32
    loop := disable ev .sighup (disable ev .sigterm (disable ev .sigint c.loop)) }

/-- The lag detector of `_ft_context_on_heartbeat_timer`, in exact numbers. -/
def detectLag (config : ContextConfig) (c : FtContext σ) : FtContext σ :=
  if 0 < c.heartbeatAt ∧
      config.lagDetectorSensitivity < c.now - c.heartbeatAt - config.heartbeatInterval then
    { c with lags := c.lags ++ [c.now - c.heartbeatAt - config.heartbeatInterval] }
  else c

/-- `_ft_context_on_heartbeat_timer`. -/
def onHeartbeatTimer (config : ContextConfig) (c : FtContext σ) : FtContext σ :=
  { (c.publish (.heartbeat c.now)).detectLag config with heartbeatAt := c.now }

/-- The timer for heartbeats repeats if there is an interval. -/
def fireHeartbeat (config : ContextConfig) (l : σ) : σ :=
  ev.fire (config.heartbeatInterval ≠ 0) .heartbeat l

/-- What happens to a context. -/
inductive Event
  | start (n : ℕ)
  | stop (n : ℕ)
  | shutdown
  | signal (s : Signal)
  | heartbeat
  | shutdownTimer
  | advance (d : ℚ≥0)

/-- The context after an event. The loop calls the handlers of active watchers only, and a signal
without a handler ends the process. -/
def Event.exec (config : ContextConfig) : Event → FtContext σ → FtContext σ
  | .start n, c => c.setLoop (ev.start (.user n) c.loop)
  | .stop n, c => c.setLoop (ev.stop (.user n) c.loop)
  | .shutdown, c => c.stop ev
  | .signal s, c =>
    if s.watcher ∈ ev.active c.loop then c.onSignal ev s else { c with killed := true }
  | .heartbeat, c =>
    if .heartbeat ∈ ev.active c.loop then
      (c.setLoop (fireHeartbeat ev config c.loop)).onHeartbeatTimer config
    else c
  | .shutdownTimer, c =>
    if .shutdown ∈ ev.active c.loop then
      (c.setLoop (ev.fire true .shutdown c.loop)).onShutdownTimer ev
    else c
  | .advance d, c => { c with now := c.now + d }

/-- The context after events, until the process ends. -/
def run (config : ContextConfig) (events : List Event) (c : FtContext σ) : FtContext σ :=
  events.foldl (fun c e => if c.killed = true then c else e.exec ev config c) c

/-- The times of the heartbeats that were published. -/
def heartbeats (published : List ContextMessage) : List ℚ :=
  published.filterMap fun
    | .heartbeat now => some now
    | .exit _ => none

/-- The phases of the exits that were published. -/
def exits (published : List ContextMessage) : List ExitPhase :=
  published.filterMap fun
    | .heartbeat _ => none
    | .exit phase => some phase

/-- How much later than planned the heartbeats at these times came, where that is too much. A
heartbeat at a time that is not positive does not count. -/
def lagsOf (config : ContextConfig) (ts : List ℚ) : List ℚ :=
  (ts.zip ts.tail).filterMap fun p =>
    if 0 < p.1 ∧ config.lagDetectorSensitivity < p.2 - p.1 - config.heartbeatInterval then
      some (p.2 - p.1 - config.heartbeatInterval)
    else none

section Life

variable {ev} {config : ContextConfig} {c : FtContext σ} {l : σ} {a : Watcher} {k : ℤ}

theorem zip_tail_concat {α : Type} (ts : List α) (a b : α) :
    (ts ++ [a] ++ [b]).zip (ts ++ [a] ++ [b]).tail =
      (ts ++ [a]).zip (ts ++ [a]).tail ++ [(a, b)] := by
  induction ts with
  | nil => rfl
  | cons t ts ih =>
    cases ts with
    | nil => rfl
    | cons u ts => simpa using ih

theorem lagsOf_concat (ts : List ℚ) (b : ℚ) :
    lagsOf config (ts ++ [b]) = lagsOf config ts ++
      if 0 < ts.getLast?.getD 0 ∧
          config.lagDetectorSensitivity < b - ts.getLast?.getD 0 - config.heartbeatInterval then
        [b - ts.getLast?.getD 0 - config.heartbeatInterval]
      else [] := by
  rcases List.eq_nil_or_concat' ts with rfl | ⟨ts, a, rfl⟩
  · simp [lagsOf]
  · rw [lagsOf, zip_tail_concat, List.filterMap_append, lagsOf, List.getLast?_concat,
      Option.getD_some]
    congr 1
    split_ifs with h <;> simp [h]

theorem detectLag_eq : c.detectLag config = { c with
    lags := c.lags ++
      if 0 < c.heartbeatAt ∧
          config.lagDetectorSensitivity < c.now - c.heartbeatAt - config.heartbeatInterval then
        [c.now - c.heartbeatAt - config.heartbeatInterval]
      else [] } := by
  unfold detectLag
  split_ifs
  · rfl
  · rw [List.append_nil]

/-- In the life of a context the references are those of the application, unless the heartbeat was
stopped by the loop. It exits and wants to shut down from the first request on, and has all handlers
of signals before it. -/
structure Life (ev : Ops Watcher σ) (config : ContextConfig) (c : FtContext σ) : Prop where
  refs : ev.Counts Watcher.Keeps
    (if config.heartbeatInterval = 0 ∧ heartbeats c.published ≠ [] then 1 else 0) c.loop
  heartbeat : .heartbeat ∈ ev.active c.loop ↔
    ¬(config.heartbeatInterval = 0 ∧ heartbeats c.published ≠ [])
  shutdown : .shutdown ∈ ev.active c.loop ↔ c.requested ≠ []
  running : c.running = true ↔ c.requested = []
  shutdownAt : c.shutdownAt = c.requested.head?
  exits : exits c.published = (c.requested.map fun _ => .FT_EXIT_PHASE_POLITE).take 1
  signals : (∀ s : Signal, s.watcher ∈ ev.active c.loop) ∨
    c.requested ≠ [] ∧ ∀ s : Signal, s.watcher ∉ ev.active c.loop
  killed : c.killed = true → c.requested ≠ []
  heartbeatAt : c.heartbeatAt = (heartbeats c.published).getLast?.getD 0
  lags : c.lags = lagsOf config (heartbeats c.published)

theorem active_install (hev : ev.Lawful) :
    ev.active (install ev a l) = insert a (ev.active l) := by
  rw [install, hev.active_unref, hev.active_start]

theorem active_disable (hev : ev.Lawful) :
    ev.active (disable ev a l) = (ev.active l).erase a := by
  unfold disable
  split_ifs with h
  · rw [hev.active_stop, hev.active_ref]
  · exact (Finset.erase_eq_of_notMem h).symm

theorem counts_disable (hev : ev.Lawful) (hl : ev.Counts Watcher.Keeps k l) (ha : ¬a.Keeps) :
    ev.Counts Watcher.Keeps k (disable ev a l) := by
  unfold disable
  split_ifs with hm
  · exact hev.counts_ref_stop hl ha hm
  · exact hl

theorem life_init (hev : ev.Lawful) (hactive : ev.active l = ∅) (hrefs : ev.refs l = 0) (now : ℚ)
    (ok : Bool) : Life ev config (init ev l now ok).2 := by
  have hcounts : ev.Counts Watcher.Keeps 0 l := by simp [Ops.Counts, hactive, hrefs]
  refine ⟨?_, ?_, ?_, ?_, rfl, rfl, .inl ?_, ?_, rfl, rfl⟩
  · rw [if_neg (by simp [heartbeats, init])]
    refine hev.counts_start_unref (hev.counts_start_unref (hev.counts_start_unref
      (hev.counts_start_unref (hev.counts_start_unref hcounts id ?_) id ?_) id ?_) id ?_) id ?_ <;>
      simp [active_install hev, hactive]
  · simp [heartbeats, init, active_install hev]
  · simp [init, active_install hev, hactive]
  · simp [init]
  · intro s
    cases s <;> simp [init, Signal.watcher, active_install hev]
  · intro h
    cases h

/-- The loop changes, but not for the watchers of the context. -/
theorem Life.setLoop (h : Life ev config c)
    (hn : ∀ b : Watcher, ¬b.Keeps → (b ∈ ev.active l ↔ b ∈ ev.active c.loop))
    (hl : ∀ k, ev.Counts Watcher.Keeps k c.loop → ev.Counts Watcher.Keeps k l) :
    Life ev config (c.setLoop l) where
  __ := h
  refs := hl _ h.refs
  heartbeat := (hn .heartbeat id).trans h.heartbeat
  shutdown := (hn .shutdown id).trans h.shutdown
  signals := by
    have hs (s : Signal) : s.watcher ∈ ev.active l ↔ s.watcher ∈ ev.active c.loop :=
      hn _ (by cases s <;> exact id)
    simpa only [FtContext.setLoop, hs] using h.signals

@[simp] theorem heartbeats_heartbeat {ms : List ContextMessage} {t : ℚ} :
    heartbeats (ms ++ [.heartbeat t]) = heartbeats ms ++ [t] := by simp [heartbeats]

@[simp] theorem heartbeats_exit {ms : List ContextMessage} {phase : ExitPhase} :
    heartbeats (ms ++ [.exit phase]) = heartbeats ms := by simp [heartbeats]

@[simp] theorem exits_heartbeat {ms : List ContextMessage} {t : ℚ} :
    exits (ms ++ [.heartbeat t]) = exits ms := by simp [exits]

@[simp] theorem exits_exit {ms : List ContextMessage} {phase : ExitPhase} :
    exits (ms ++ [.exit phase]) = exits ms ++ [phase] := by simp [exits]

/-- The first request starts the shutdown timer and publishes the exit. -/
theorem Life.stop (hev : ev.Lawful) (h : Life ev config c) : Life ev config (c.stop ev) := by
  have hne : c.request.requested ≠ [] := by simp [request]
  unfold FtContext.stop
  split_ifs with hr
  · have hn : c.requested = [] := h.running.mp hr
    have hshutdown : .shutdown ∉ ev.active c.loop := fun hm => h.shutdown.mp hm hn
    refine ⟨?_, ?_, ?_, ?_, ?_, ?_, ?_, fun _ => hne, ?_, ?_⟩ <;>
      simp only [FtContext.setLoop, publish, heartbeats_exit, exits_exit, active_install hev,
        Finset.mem_insert]
    · exact hev.counts_start_unref h.refs id hshutdown
    · refine Iff.trans ?_ h.heartbeat
      simp
    · simpa using hne
    · simpa using hne
    · simp [request, hn]
    · refine (congrArg (· ++ [.FT_EXIT_PHASE_POLITE]) h.exits).trans ?_
      simp [request, hn]
    · exact h.signals.imp (fun hs s => .inr (hs s)) fun hs => absurd hn hs.1
    · exact h.heartbeatAt
    · exact h.lags
  · have hn : c.requested ≠ [] := fun hn => hr (h.running.mpr hn)
    refine { h with shutdown := ?_, running := ?_, shutdownAt := ?_, exits := ?_, signals := ?_,
                    killed := fun _ => hne }
    · exact h.shutdown.trans (iff_of_true hn hne)
    · exact h.running.trans (iff_of_false hn hne)
    · change c.shutdownAt = (c.requested ++ [c.now]).head?
      rw [List.head?_append_of_ne_nil _ hn]
      exact h.shutdownAt
    · have hlength : 1 ≤ (c.requested.map fun _ => ExitPhase.FT_EXIT_PHASE_POLITE).length := by
        rw [List.length_map]
        exact List.length_pos_iff.mpr hn
      change _ = ((c.requested ++ [c.now]).map _).take 1
      rw [List.map_append, List.take_append_of_le_length hlength]
      exact h.exits
    · exact h.signals.imp_right fun hs => ⟨hne, hs.2⟩

theorem Life.onShutdownTimer (hev : ev.Lawful) (h : Life ev config c)
    (hs : .shutdown ∈ ev.active c.loop) : Life ev config (c.onShutdownTimer ev) where
  __ := h
  refs := counts_disable hev (counts_disable hev (counts_disable hev h.refs id) id) id
  heartbeat := by
    refine Iff.trans ?_ h.heartbeat
    simp [FtContext.onShutdownTimer, active_disable hev]
  shutdown := by
    refine Iff.trans ?_ h.shutdown
    simp [FtContext.onShutdownTimer, active_disable hev]
  signals := by
    refine .inr ⟨h.shutdown.mp hs, fun s => ?_⟩
    cases s <;> simp [FtContext.onShutdownTimer, Signal.watcher, active_disable hev]

theorem onHeartbeatTimer_eq (h : Life ev config c) (l : σ) :
    (c.setLoop l).onHeartbeatTimer config = { c with
      loop := l
      published := c.published ++ [.heartbeat c.now]
      heartbeatAt := c.now
      lags := lagsOf config (heartbeats c.published ++ [c.now]) } := by
  rw [onHeartbeatTimer, detectLag_eq, lagsOf_concat, ← h.lags, ← h.heartbeatAt]
  rfl

theorem active_fireHeartbeat (hev : ev.Lawful) {b : Watcher} (hb : b ≠ .heartbeat) :
    b ∈ ev.active (fireHeartbeat ev config l) ↔ b ∈ ev.active l := by
  unfold fireHeartbeat
  by_cases hi : config.heartbeatInterval = 0 <;>
    simp [hi, hb, hev.active_fire, hev.active_expire]

theorem Life.onHeartbeatTimer (hev : ev.Lawful) (h : Life ev config c)
    (hm : .heartbeat ∈ ev.active c.loop) :
    Life ev config ((c.setLoop (fireHeartbeat ev config c.loop)).onHeartbeatTimer config) := by
  have hs (s : Signal) : s.watcher ∈ ev.active (fireHeartbeat ev config c.loop) ↔
      s.watcher ∈ ev.active c.loop :=
    active_fireHeartbeat hev (by cases s <;> simp [Signal.watcher])
  have hne : heartbeats c.published ++ [c.now] ≠ [] := by simp
  rw [onHeartbeatTimer_eq h]
  refine { h with refs := ?_, heartbeat := ?_, shutdown := ?_, exits := ?_, signals := ?_,
                  heartbeatAt := ?_, lags := ?_ } <;>
    simp only [heartbeats_heartbeat, exits_heartbeat, hs]
  · have hnone : ¬(config.heartbeatInterval = 0 ∧ heartbeats c.published ≠ []) := h.heartbeat.mp hm
    have hrefs := h.refs
    rw [if_neg hnone] at hrefs
    unfold fireHeartbeat
    by_cases hi : config.heartbeatInterval = 0
    · rw [if_pos ⟨hi, hne⟩]
      simpa [hi] using hev.counts_expire hrefs id hm
    · rw [if_neg fun hk => hi hk.1]
      simpa [hi] using hev.counts_fire hrefs
  · unfold fireHeartbeat
    by_cases hi : config.heartbeatInterval = 0
    · simp [hi, hev.active_expire]
    · simp [hi, hm, hev.active_fire]
  · exact (active_fireHeartbeat hev (by simp)).trans h.shutdown
  · exact h.exits
  · exact h.signals
  · simp

theorem Life.exec (hev : ev.Lawful) (e : Event) (h : Life ev config c) :
    Life ev config (e.exec ev config c) := by
  cases e with
  | start n =>
    refine h.setLoop (fun b hb => ?_) fun k hk => hev.counts_start hk trivial
    have hne : b ≠ .user n := fun he => hb (he ▸ trivial)
    simp [hne, hev.active_start]
  | stop n =>
    refine h.setLoop (fun b hb => ?_) fun k hk => hev.counts_stop hk trivial
    have hne : b ≠ .user n := fun he => hb (he ▸ trivial)
    simp [hne, hev.active_stop]
  | shutdown => exact h.stop hev
  | signal s =>
    rw [Event.exec]
    split_ifs with hs
    · cases s with
      | SIGINT => exact h.stop hev
      | SIGTERM => exact h.stop hev
      | SIGHUP => exact { h with }
    · have hn : c.requested ≠ [] := by
        rcases h.signals with hall | hnone
        · exact absurd (hall s) hs
        · exact hnone.1
      exact { h with killed := fun _ => hn }
  | heartbeat =>
    rw [Event.exec]
    split_ifs with hm
    · exact h.onHeartbeatTimer hev hm
    · exact h
  | shutdownTimer =>
    rw [Event.exec]
    split_ifs with hm
    · have hfire : Life ev config (c.setLoop (ev.fire true .shutdown c.loop)) :=
        h.setLoop (fun b _ => by rw [hev.active_fire]) fun k hk => hev.counts_fire hk
      refine hfire.onShutdownTimer hev ?_
      rwa [FtContext.setLoop, hev.active_fire]
    · exact h
  | advance d => exact { h with }

theorem Life.run (hev : ev.Lawful) (events : List Event) (h : Life ev config c) :
    Life ev config (FtContext.run ev config events c) := by
  induction events generalizing c with
  | nil => exact h
  | cons e events ih =>
    rw [FtContext.run, List.foldl_cons]
    split_ifs
    · exact ih h
    · exact ih (h.exec hev e)

/-- The application's watchers that are active. -/
def users (ev : Ops Watcher σ) (c : FtContext σ) : Finset Watcher :=
  (ev.active c.loop).filter Watcher.Keeps

/-- In every run on a new event loop the loop has no references when no watcher of the application
is active, if the heartbeat repeats. The exit is published once, at the first request; no signal
ends the process before; and the lags that were warned of are those of the heartbeats. -/
theorem run_life (hev : ev.Lawful) (hactive : ev.active l = ∅) (hrefs : ev.refs l = 0)
    (config : ContextConfig) (now : ℚ) (ok : Bool) (events : List Event) :
    let c := run ev config events (init ev l now ok).2
    Life ev config c ∧ (config.heartbeatInterval ≠ 0 → (ev.refs c.loop = 0 ↔ c.users ev = ∅)) := by
  have h : Life ev config (run ev config events (init ev l now ok).2) :=
    (life_init hev hactive hrefs now ok).run hev events
  refine ⟨h, fun hi => ?_⟩
  have hcounts := h.refs
  rw [if_neg (fun hc => hi hc.1)] at hcounts
  unfold Ops.Counts at hcounts
  rw [hcounts, users, ← Finset.card_eq_zero]
  omega

/-- A connection, two heartbeats, the second of which is late, and `SIGINT`. -/
theorem run_life_lag :
    let c := run counting ⟨2, 1⟩
      [.start 0, .advance 1, .heartbeat, .advance 4, .heartbeat, .signal .SIGINT, .stop 0,
        .shutdownTimer]
      (init counting (∅, 0) 0 true).2
    Life counting ⟨2, 1⟩ c ∧
      ((2 : ℚ≥0) ≠ 0 → (counting.refs c.loop = 0 ↔ c.users counting = ∅)) :=
  run_life lawful_counting rfl rfl ⟨2, 1⟩ 0 true
    [.start 0, .advance 1, .heartbeat, .advance 4, .heartbeat, .signal .SIGINT, .stop 0,
      .shutdownTimer]

end Life

end FtContext

end FrameTransporter
