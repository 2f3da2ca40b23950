import Mathlib.Data.Rat.Defs
import Mathlib.Logic.Function.Basic
import AmrFramework.Runs

/-!
# The health monitor

`HealthMonitorNode` ages the heartbeats of the monitored nodes in every tick,
reports their status and restarts a node whose heartbeat is overdue: it asks the
node for four lifecycle transitions, one after the other, and the response to
each sends the next.

A callback runs to its end before the next one. `World` is the node with the
requests that are not answered yet; what a callback does is recorded in a log,
newest first. The clock may jump between two callbacks and does not go back
within one.
-/

namespace AmrFramework.Watchdog

open Runs

inductive NodeStatus
  | ok
  | warn
  | error
  /-- never received data -/
  | stale
  /-- exceeded the restart attempts -/
  | fatal
  deriving DecidableEq, Repr

/-- `to_string`. -/
def NodeStatus.toString : NodeStatus → String
  | .ok => "OK"
  | .warn => "WARN"
  | .error => "ERROR"
  | .stale => "STALE"
  | .fatal => "FATAL"

structure NodeHeartbeat where
  timeoutS : ℚ := 1
  /-- seconds since the last heartbeat; negative for never -/
  lastSeenS : ℚ := -1

/-- `HeartbeatAnalyzer::kWarnRatio`. -/
def kWarnRatio : ℚ := 0.8

/-- `HeartbeatAnalyzer::evaluate`. -/
def NodeHeartbeat.evaluate (hb : NodeHeartbeat) : NodeStatus :=
  if hb.lastSeenS < 0 then .stale
  else if hb.timeoutS < hb.lastSeenS then .error
  else if hb.timeoutS * kWarnRatio < hb.lastSeenS then .warn
  else .ok

/-- `RecoveryPolicy::kMaxRetries`. -/
def kMaxRetries : Nat := 3

/-- `RecoveryPolicy::should_recover`. -/
def policyShouldRecover (status : NodeStatus) (attempts : Nat) : Bool :=
  status = .error ∧ attempts < kMaxRetries

/-- `RecoveryPolicy::escalate`. -/
def escalate (status : NodeStatus) (attempts : Nat) : NodeStatus :=
  if status = .error ∧ kMaxRetries ≤ attempts then .fatal else status

/-! ## The monitoring service

The age of a heartbeat and the number of attempts are kept for each node; a status is what they
say together. `should_recover` counts as it answers. -/

structure MonitoringService where
  heartbeats : String → Option NodeHeartbeat := fun _ => none
  /-- the attempts of each node -/
  recovery : String → Nat := fun _ => 0

namespace MonitoringService

def registerNode (m : MonitoringService) (name : String) (timeoutS : ℚ) : MonitoringService :=
  { m with heartbeats := Function.update m.heartbeats name (some ⟨timeoutS, -1⟩) }

def heartbeatReceived (m : MonitoringService) (name : String) (ageS : ℚ) : MonitoringService :=
  match m.heartbeats name with
  | some hb =>
    { m with heartbeats := Function.update m.heartbeats name (some { hb with lastSeenS := ageS }) }
  | none => m

def tick (m : MonitoringService) (dt : ℚ) : MonitoringService :=
  { m with
    heartbeats := fun name => (m.heartbeats name).map fun hb =>
      if 0 ≤ hb.lastSeenS then { hb with lastSeenS := hb.lastSeenS + dt } else hb }

def evaluate (m : MonitoringService) (name : String) : NodeStatus :=
  match m.heartbeats name with
  | none => .stale
  | some hb => hb.evaluate

/-- An attempt that is granted is counted. -/
def shouldRecover (m : MonitoringService) (name : String) : Bool × MonitoringService :=
  let ok := policyShouldRecover (m.evaluate name) (m.recovery name)
  (ok, if ok then { m with recovery := Function.update m.recovery name (m.recovery name + 1) }
    else m)

def onRecovered (m : MonitoringService) (name : String) : MonitoringService :=
  { m with recovery := Function.update m.recovery name 0 }

def escalatedStatus (m : MonitoringService) (name : String) : NodeStatus :=
  escalate (m.evaluate name) (m.recovery name)

end MonitoringService

/-! ## The node

A restart is four transitions, requested one after the other. The node keeps which one it is at,
for which node, and until when. -/

inductive Transition
  | deactivate
  | cleanup
  | configure
  | activate
  deriving DecidableEq, Repr

/-- `kSequence`. -/
def kSequence : List Transition := [.deactivate, .cleanup, .configure, .activate]

/-- `kRestartTimeoutS`, in nanoseconds. -/
def kRestartTimeoutNs : Int := 30000000000

structure ProbeConfig where
  node : String
  timeoutS : ℚ := 1
  /-- probed by its lifecycle state; such a node is not restarted -/
  lifecycle : Bool := false

structure RestartState where
  node : String := ""
  step : Nat := 0
  inProgress : Bool := false
  deadline : Int := 0
  deriving DecidableEq, Repr

structure HealthMonitor where
  probes : List ProbeConfig
  restartEnabled : Bool := true
  monitor : MonitoringService := {}
  restart : RestartState := {}
  /-- the time of the last tick; zero before the first -/
  lastTick : Int := 0

/-- `on_configure`: every probe is registered. -/
def HealthMonitor.configured (probes : List ProbeConfig) (restartEnabled : Bool) :
    HealthMonitor where
  probes := probes
  restartEnabled := restartEnabled
  monitor := probes.foldl (fun m cfg => m.registerNode cfg.node cfg.timeoutS) {}

/-- `create_restart_clients`: the nodes that have a client. -/
def HealthMonitor.HasClient (n : HealthMonitor) (name : String) : Prop :=
  ∃ cfg ∈ n.probes, cfg.node = name ∧ cfg.lifecycle = false

instance (n : HealthMonitor) (name : String) : Decidable (n.HasClient name) :=
  inferInstanceAs (Decidable (∃ cfg ∈ n.probes, _))

/-! ## What is observed of it

The log records what a run is judged by: what was reported, which attempts were granted, which
restarts began or were skipped, and what the responses said. -/

/-- An entry of the health report. -/
structure HealthStatus where
  nodeName : String
  status : String
  lastSeenS : ℚ := 0
  timeoutS : ℚ
  deriving DecidableEq

/-- A `ChangeState` request, with the number and the deadline of the restart that
sends it. -/
structure Request where
  restart : Nat
  node : String
  transition : Transition
  deadline : Int
  deriving DecidableEq, Repr

inductive Rec
  /-- an entry of the report -/
  | reported (st : HealthStatus)
  /-- `should_recover` answered `true` -/
  | granted (node : String)
  /-- the restart record was set up for the node -/
  | begun (node : String)
  /-- a granted restart that was not begun, in the tick at `tick`; the deadline is
  that of the restart in progress, if it was for one -/
  | skipped (node : String) (tick : Int) (deadline : Option Int)
  | sent (r : Request)
  | answered (r : Request) (success : Bool)
  deriving DecidableEq

structure World where
  node : HealthMonitor
  /-- the requests sent and not answered -/
  pending : List Request := []
  /-- the restarts begun so far -/
  restarts : Nat := 0
  log : List Rec := []

def World.push (w : World) (e : Rec) : World := { w with log := e :: w.log }

/-- `restart_ = {}`. -/
def World.reset (w : World) : World := { w with node.restart := {} }

/-! ## The callbacks

The timer callback goes through the probes; the response callback goes on with the restart. They
never overlap, but a restart takes many of them. -/

/-- `send_next_transition` at time `now`, when the service is `ready` or not. -/
def World.sendNextTransition (w : World) (now : Int) (ready : Bool) : World :=
  if w.node.restart.deadline < now then w.reset
  else
    match kSequence[w.node.restart.step]? with
    | none => w.reset
    | some transition =>
      if ¬ w.node.HasClient w.node.restart.node then w.reset
      else if ready then
        let r : Request := ⟨w.restarts, w.node.restart.node, transition, w.node.restart.deadline⟩
        { w with pending := r :: w.pending, log := .sent r :: w.log }
      else w.reset

/-- What the callback finds when it restarts a node: the time from the start of
the tick to the first and to the second reading of the clock, and whether the
service is ready. -/
structure RestartEnv where
  untilBegin : Nat := 0
  untilSend : Nat := 0
  ready : Bool := true

/-- `begin_restart`, in the tick at `tick`. -/
def World.beginRestart (w : World) (name : String) (tick : Int) (env : RestartEnv) : World :=
  if w.node.restart.inProgress then
    w.push (.skipped name tick (some w.node.restart.deadline))
  else if ¬ w.node.HasClient name then w.push (.skipped name tick none)
  else
    let begun : World :=
      { w with
        node.restart := ⟨name, 0, true, tick + env.untilBegin + kRestartTimeoutNs⟩
        restarts := w.restarts + 1
        log := .begun name :: w.log }
    begun.sendNextTransition (tick + env.untilBegin + env.untilSend) env.ready

/-- One round of the loop of `check_health`. -/
def World.checkProbe (tick : Int) (env : String → RestartEnv) (w : World) (cfg : ProbeConfig) :
    World :=
  let nodeStatus := w.node.monitor.escalatedStatus cfg.node
  let status : HealthStatus :=
    { nodeName := cfg.node
      timeoutS := cfg.timeoutS
      status := nodeStatus.toString
      lastSeenS := ((w.node.monitor.heartbeats cfg.node).map NodeHeartbeat.lastSeenS).getD 0 }
  match nodeStatus with
  | .error =>
    if ¬ w.node.restartEnabled then w.push (.reported status)
    else
      let (ok, monitor) := w.node.monitor.shouldRecover cfg.node
      let w := { w with node.monitor := monitor }
      if ok then
        ((w.push (.granted cfg.node)).beginRestart cfg.node tick (env cfg.node)).push
          (.reported status)
      else w.push (.reported { status with status := "FATAL" })
  | .ok =>
    { w with node.monitor := w.node.monitor.onRecovered cfg.node }.push (.reported status)
  | .warn => w.push (.reported status)
  | .stale => w.push (.reported status)
  | .fatal => w.push (.reported status)

/-- The heartbeats age by the time since the last tick. -/
def World.age (w : World) (tick : Int) : World :=
  { w with
    node.monitor :=
      if 0 < w.node.lastTick then w.node.monitor.tick ((tick - w.node.lastTick : Int) / 10 ^ 9)
      else w.node.monitor
    node.lastTick := tick }

/-- `check_health`. -/
def World.checkHealth (w : World) (tick : Int) (env : String → RestartEnv) : World :=
  w.node.probes.foldl (World.checkProbe tick env) (w.age tick)

/-- `handle_transition_response`. It does not look at which request is answered: a response that
comes late is taken for the one of the restart in progress. -/
def World.handleTransitionResponse (w : World) (success : Bool) (now : Int) (ready : Bool) :
    World :=
  if ¬ success then w.reset
  else
    { w with node.restart.step := w.node.restart.step + 1 }.sendNextTransition now ready

inductive Event
  /-- a heartbeat, or an answer of the lifecycle probe -/
  | heartbeat (name : String)
  | tick (now : Int) (env : String → RestartEnv)
  /-- a `ChangeState` request is answered -/
  | response (r : Request) (success : Bool) (now : Int) (ready : Bool)

/-- One callback. A request may never be answered, may be answered late, and its answer may find
the node in any state. The clock readings and what the service clients say are part of the event. -/
inductive Step : World → Event → World → Prop
  | heartbeat {w : World} (name : String) :
      Step w (.heartbeat name) { w with node.monitor := w.node.monitor.heartbeatReceived name 0 }
  | tick {w : World} (now : Int) (env : String → RestartEnv) :
      Step w (.tick now env) (w.checkHealth now env)
  | response {w : World} {r : Request} (hr : r ∈ w.pending) (success : Bool) (now : Int)
      (ready : Bool) :
      Step w (.response r success now ready)
        (World.handleTransitionResponse
          { w with pending := w.pending.erase r, log := .answered r success :: w.log }
          success now ready)

/-- The node after `on_configure`. -/
def World.start (probes : List ProbeConfig) (restartEnabled : Bool) : World where
  node := .configured probes restartEnabled

/-- The callback of an event; `none` for a response to no request. -/
def World.handle (w : World) : Event → Option World
  | .heartbeat name => some { w with node.monitor := w.node.monitor.heartbeatReceived name 0 }
  | .tick now env => some (w.checkHealth now env)
  | .response r success now ready =>
    if r ∈ w.pending then
      some (World.handleTransitionResponse
        { w with pending := w.pending.erase r, log := .answered r success :: w.log }
        success now ready)
    else none

theorem step_iff_handle {w w' : World} {e : Event} : Step w e w' ↔ w.handle e = some w' := by
  constructor
  · intro h
    cases h with
    | heartbeat name => rfl
    | tick now env => rfl
    | response hr success now ready => exact if_pos hr
  · intro h
    cases e with
    | heartbeat name =>
      obtain rfl := Option.some.inj h
      exact .heartbeat name
    | tick now env =>
      obtain rfl := Option.some.inj h
      exact .tick now env
    | response r success now ready =>
      simp only [World.handle] at h
      split at h
      · next hr =>
        obtain rfl := Option.some.inj h
        exact .response hr success now ready
      · cases h

/-- A sequence of events that is executed is a run. -/
theorem run_of_handle (w₀ : World) (es : List Event) (p : World → Bool)
    (he : (exec World.handle w₀ es).any p = true) :
    ∃ w, Run Step w₀ es.reverse w ∧ p w = true :=
  Run.of_exec_any (fun _ _ _ => step_iff_handle.mpr) w₀ es p he

/-! ## What a callback does

A round of the timer callback ends in one of three ways, and so does the begin of a restart.
These are the cases that the properties of restarts go by. -/

variable {w : World}

/-- A node is in error when its heartbeat is overdue and it has attempts left. -/
theorem escalatedStatus_eq_error {m : MonitoringService} {name : String} :
    m.escalatedStatus name = .error ↔
      m.evaluate name = .error ∧ m.recovery name < kMaxRetries := by
  rw [MonitoringService.escalatedStatus, escalate]
  by_cases h : m.evaluate name = .error ∧ kMaxRetries ≤ m.recovery name
  · rw [if_pos h]
    exact ⟨nofun, fun hlt => absurd hlt.2 (not_lt.mpr h.2)⟩
  · rw [if_neg h]
    exact ⟨fun herr => ⟨herr, not_le.mp fun hle => h ⟨herr, hle⟩⟩, fun hlt => hlt.1⟩

theorem NodeHeartbeat.evaluate_ne_fatal (hb : NodeHeartbeat) : hb.evaluate ≠ .fatal := by
  rw [NodeHeartbeat.evaluate]
  split
  · exact nofun
  · split
    · exact nofun
    · split <;> exact nofun

/-- A node is given up when its heartbeat is overdue and no attempt is left. -/
theorem escalatedStatus_eq_fatal {m : MonitoringService} {name : String} :
    m.escalatedStatus name = .fatal ↔
      m.evaluate name = .error ∧ kMaxRetries ≤ m.recovery name := by
  rw [MonitoringService.escalatedStatus, escalate]
  by_cases h : m.evaluate name = .error ∧ kMaxRetries ≤ m.recovery name
  · rw [if_pos h]
    exact iff_of_true rfl h
  · rw [if_neg h]
    refine iff_of_false (fun hfatal => ?_) h
    rw [MonitoringService.evaluate] at hfatal
    cases hhb : m.heartbeats name with
    | none =>
      rw [hhb] at hfatal
      cases hfatal
    | some hb =>
      rw [hhb] at hfatal
      exact hb.evaluate_ne_fatal hfatal

/-- The node after `should_recover` granted an attempt. -/
def World.counted (w : World) (name : String) : World :=
  { w with node.monitor.recovery :=
      Function.update w.node.monitor.recovery name (w.node.monitor.recovery name + 1) }

/-- **The three ends of a round of `check_health`**: a restart is granted, the
node has recovered, or its status is only reported. -/
theorem checkProbe_cases (w : World) (tick : Int) (env : String → RestartEnv)
    (cfg : ProbeConfig) :
    (w.node.restartEnabled = true ∧ w.node.monitor.escalatedStatus cfg.node = .error ∧
      ∃ st : HealthStatus, st.nodeName = cfg.node ∧ st.status = "ERROR" ∧
        w.checkProbe tick env cfg = ((((w.counted cfg.node).push (.granted cfg.node)).beginRestart
          cfg.node tick (env cfg.node)).push (.reported st))) ∨
    (w.node.monitor.escalatedStatus cfg.node = .ok ∧
      ∃ st : HealthStatus, st.nodeName = cfg.node ∧ st.status = "OK" ∧
        w.checkProbe tick env cfg =
          { w with node.monitor := w.node.monitor.onRecovered cfg.node }.push (.reported st)) ∨
    ((w.node.restartEnabled = true → w.node.monitor.escalatedStatus cfg.node ≠ .error) ∧
      w.node.monitor.escalatedStatus cfg.node ≠ .ok ∧
      ∃ st : HealthStatus, st.nodeName = cfg.node ∧
        st.status = (w.node.monitor.escalatedStatus cfg.node).toString ∧
        w.checkProbe tick env cfg = w.push (.reported st)) := by
  simp only [World.checkProbe]
  cases hstatus : w.node.monitor.escalatedStatus cfg.node with
  | error =>
    by_cases henabled : w.node.restartEnabled = true
    · obtain ⟨heval, hlt⟩ := escalatedStatus_eq_error.mp hstatus
      have hgrant : policyShouldRecover (w.node.monitor.evaluate cfg.node)
          (w.node.monitor.recovery cfg.node) = true := decide_eq_true ⟨heval, hlt⟩
      let seen := ((w.node.monitor.heartbeats cfg.node).map NodeHeartbeat.lastSeenS).getD 0
      refine .inl ⟨henabled, rfl, ⟨cfg.node, "ERROR", seen, cfg.timeoutS⟩, rfl, rfl,
        (if_neg (not_not.mpr henabled)).trans ?_⟩
      simp only [MonitoringService.shouldRecover, hgrant, if_true]
      rfl
    · exact .inr (.inr ⟨fun h => absurd h henabled, nofun, _, rfl, rfl, if_pos henabled⟩)
  | ok => exact .inr (.inl ⟨rfl, _, rfl, rfl, rfl⟩)
  | warn => exact .inr (.inr ⟨nofun, nofun, _, rfl, rfl, rfl⟩)
  | stale => exact .inr (.inr ⟨nofun, nofun, _, rfl, rfl, rfl⟩)
  | fatal => exact .inr (.inr ⟨nofun, nofun, _, rfl, rfl, rfl⟩)

/-- The request that a restart sends for a transition. -/
def World.request (w : World) (t : Transition) : Request :=
  ⟨w.restarts, w.node.restart.node, t, w.node.restart.deadline⟩

/-- **The two ends of `send_next_transition`**: the restart is over, or the
request of its step is sent. -/
theorem sendNextTransition_cases (w : World) (now : Int) (ready : Bool) :
    w.sendNextTransition now ready = w.reset ∨
      ∃ t, kSequence[w.node.restart.step]? = some t ∧
        w.sendNextTransition now ready =
          { w with pending := w.request t :: w.pending, log := .sent (w.request t) :: w.log } := by
  rw [World.sendNextTransition]
  by_cases hlate : w.node.restart.deadline < now
  · rw [if_pos hlate]
    exact .inl rfl
  · rw [if_neg hlate]
    cases ht : kSequence[w.node.restart.step]? with
    | none => exact .inl rfl
    | some t =>
      by_cases hclient : ¬ w.node.HasClient w.node.restart.node
      · exact .inl (if_pos hclient)
      · cases ready with
        | false => exact .inl (if_neg hclient)
        | true => exact .inr ⟨t, rfl, if_neg hclient⟩

/-- The record of a restart of `name` that is begun in the tick at `tick`. -/
def World.begun (w : World) (name : String) (tick : Int) (env : RestartEnv) : World :=
  { w with
    node.restart := ⟨name, 0, true, tick + env.untilBegin + kRestartTimeoutNs⟩
    restarts := w.restarts + 1
    log := .begun name :: w.log }

/-- **The three ends of `begin_restart`**: a restart is in progress already, there is no client
for the node, or a new restart begins with its first transition. -/
theorem beginRestart_cases (w : World) (name : String) (tick : Int) (env : RestartEnv) :
    (w.node.restart.inProgress = true ∧
      w.beginRestart name tick env = w.push (.skipped name tick (some w.node.restart.deadline))) ∨
    (w.node.restart.inProgress = false ∧
      w.beginRestart name tick env = w.push (.skipped name tick none)) ∨
    (w.node.restart.inProgress = false ∧
      w.beginRestart name tick env = (w.begun name tick env).sendNextTransition
        (tick + env.untilBegin + env.untilSend) env.ready) := by
  rw [World.beginRestart]
  cases hbusy : w.node.restart.inProgress with
  | true => exact .inl ⟨rfl, if_pos rfl⟩
  | false =>
    refine .inr ?_
    rw [if_neg Bool.false_ne_true]
    by_cases hclient : ¬ w.node.HasClient name
    · exact .inl ⟨rfl, if_pos hclient⟩
    · exact .inr ⟨rfl, if_neg hclient⟩

/-- What aging and every round keep, a tick keeps. -/
theorem checkHealth_invariant {I : World → Prop} {tick : Int} {env : String → RestartEnv}
    (hage : ∀ w, I w → I (w.age tick))
    (hprobe : ∀ w cfg, I w → I (w.checkProbe tick env cfg)) (h : I w) :
    I (w.checkHealth tick env) := by
  rw [World.checkHealth]
  have haged := hage w h
  generalize w.age tick = aged at haged
  induction w.node.probes generalizing aged with
  | nil => exact haged
  | cons cfg probes ih => exact ih _ (hprobe aged cfg haged)

end AmrFramework.Watchdog
