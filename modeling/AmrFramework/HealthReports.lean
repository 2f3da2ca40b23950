import AmrFramework.HealthMonitor

/-!
# What a check reports

A tick of the health monitor publishes one entry for every probe. Which status
that is depends on the age of the node's heartbeat alone (`checkHealth_report`):
the restarts that the same tick begins leave the ages, and an attempt that is
counted turns "ERROR" into "FATAL" at most.
-/

namespace AmrFramework.Watchdog

/-- The entry of a report that was recorded. -/
def Rec.entry : Rec → Option HealthStatus
  | .reported st => some st
  | _ => none

/-- The entries recorded, newest first. -/
def entries (log : List Rec) : List HealthStatus := log.filterMap Rec.entry

/-- A `/health/report`: the time of the check, and an entry for every probe. -/
structure HealthReport where
  stamp : Int
  nodes : List HealthStatus
  deriving DecidableEq

/-- What `check_health` publishes: the entries of its rounds, in their order. They are read off
the log, as the part of it that the check has added. -/
def World.report (w : World) (tick : Int) (env : String → RestartEnv) : HealthReport where
  stamp := tick
  nodes :=
    let log := (w.checkHealth tick env).log
    (entries (log.take (log.length - w.log.length))).reverse

/-- The node is reported lost. -/
def HealthStatus.Bad (st : HealthStatus) : Prop := st.status = "ERROR" ∨ st.status = "FATAL"

/-- An entry for a node whose heartbeat has this age: OK exactly when the service evaluates it
so, and bad exactly when it evaluates it as an error. -/
structure EntryOf (m : MonitoringService) (cfg : ProbeConfig) (st : HealthStatus) : Prop where
  nodeName : st.nodeName = cfg.node
  ok_iff : st.status = "OK" ↔ m.evaluate cfg.node = .ok
  bad_iff : st.Bad ↔ m.evaluate cfg.node = .error

/-- A part of a tick that records entries, and leaves the heartbeats. Restarts that are begun on
the way show up in the log, and not in the entries. -/
structure Reports (w : World) (new : List HealthStatus) (w' : World) : Prop where
  heartbeats : w'.node.monitor.heartbeats = w.node.monitor.heartbeats
  probes : w'.node.probes = w.node.probes
  lastTick : w'.node.lastTick = w.node.lastTick
  log : ∃ l, w'.log = l ++ w.log ∧ entries l = new

variable {w w' w'' : World} {new new' : List HealthStatus}

theorem Reports.trans (h : Reports w new w') (h' : Reports w' new' w'') :
    Reports w (new' ++ new) w'' := by
  obtain ⟨l, hl, hentries⟩ := h.log
  obtain ⟨l', hl', hentries'⟩ := h'.log
  refine ⟨h'.heartbeats.trans h.heartbeats, h'.probes.trans h.probes,
    h'.lastTick.trans h.lastTick, l' ++ l, ?_, ?_⟩
  · rw [hl', hl, List.append_assoc]
  · rw [← hentries, ← hentries']
    exact List.filterMap_append ..

/-- A record that is no entry: a restart that begins, a request, an answer. -/
theorem Reports.push (w : World) {e : Rec} (he : e.entry = none) : Reports w [] (w.push e) :=
  ⟨rfl, rfl, rfl, [e], rfl, List.filterMap_cons_none he⟩

theorem Reports.entry (w : World) (st : HealthStatus) : Reports w [st] (w.push (.reported st)) :=
  ⟨rfl, rfl, rfl, [.reported st], rfl, rfl⟩

theorem sendNextTransition_reports (w : World) (now : Int) (ready : Bool) :
    Reports w [] (w.sendNextTransition now ready) := by
  obtain hreset | ⟨t, -, hsent⟩ := sendNextTransition_cases w now ready
  · rw [hreset]
    exact ⟨rfl, rfl, rfl, [], rfl, rfl⟩
  · rw [hsent]
    exact ⟨rfl, rfl, rfl, [.sent (w.request t)], rfl, rfl⟩

theorem beginRestart_reports (w : World) (name : String) (tick : Int) (env : RestartEnv) :
    Reports w [] (w.beginRestart name tick env) := by
  obtain ⟨-, h⟩ | ⟨-, h⟩ | ⟨-, h⟩ := beginRestart_cases w name tick env
  · rw [h]
    exact .push w rfl
  · rw [h]
    exact .push w rfl
  · rw [h]
    have hbegun : Reports w [] (w.begun name tick env) := ⟨rfl, rfl, rfl, [.begun name], rfl, rfl⟩
    exact hbegun.trans (sendNextTransition_reports ..)

/-- A node is OK when its heartbeat is. Escalation only tells two kinds of errors apart. -/
theorem escalatedStatus_eq_ok {m : MonitoringService} {name : String} :
    m.escalatedStatus name = .ok ↔ m.evaluate name = .ok := by
  rw [MonitoringService.escalatedStatus, escalate]
  split
  · next h => exact iff_of_false (by decide) (by rw [h.1]; decide)
  · exact Iff.rfl

/-- The status that is reported when nothing is done about it. "WARN" is neither OK nor bad. -/
theorem entryOf_toString {m : MonitoringService} {cfg : ProbeConfig} {st : HealthStatus}
    (hname : st.nodeName = cfg.node)
    (hstatus : st.status = (m.escalatedStatus cfg.node).toString) : EntryOf m cfg st := by
  refine ⟨hname, ?_, ?_⟩
  · rw [hstatus, ← escalatedStatus_eq_ok]
    cases m.escalatedStatus cfg.node <;> decide
  · have herror : m.evaluate cfg.node = .error ↔
        m.escalatedStatus cfg.node = .error ∨ m.escalatedStatus cfg.node = .fatal := by
      rw [escalatedStatus_eq_error, escalatedStatus_eq_fatal, ← and_or_left]
      exact (and_iff_left (lt_or_ge _ _)).symm
    rw [herror, HealthStatus.Bad, hstatus]
    cases m.escalatedStatus cfg.node <;> decide

/-- **One round** records one entry, that of its probe. Whatever it does about the status, it
does before or after that and without touching a heartbeat. -/
theorem checkProbe_reports (w : World) (tick : Int) (env : String → RestartEnv)
    (cfg : ProbeConfig) :
    ∃ st, EntryOf w.node.monitor cfg st ∧ Reports w [st] (w.checkProbe tick env cfg) := by
  obtain ⟨-, herror, st, hname, hstatus, heq⟩ | ⟨hok, st, hname, hstatus, heq⟩ |
      ⟨-, -, st, hname, hstatus, heq⟩ := checkProbe_cases w tick env cfg
  · have hcounted : Reports w [] (w.counted cfg.node) := ⟨rfl, rfl, rfl, [], rfl, rfl⟩
    have hgranted := hcounted.trans (.push _ (e := .granted cfg.node) rfl)
    refine ⟨st, entryOf_toString hname (by rw [hstatus, herror]; rfl), ?_⟩
    rw [heq]
    exact (hgranted.trans (beginRestart_reports ..)).trans (.entry _ st)
  · have hrecovered : Reports w []
        { w with node.monitor := w.node.monitor.onRecovered cfg.node } :=
      ⟨rfl, rfl, rfl, [], rfl, rfl⟩
    refine ⟨st, entryOf_toString hname (by rw [hstatus, hok]; rfl), ?_⟩
    rw [heq]
    exact hrecovered.trans (.entry _ st)
  · refine ⟨st, entryOf_toString hname hstatus, ?_⟩
    rw [heq]
    exact .entry w st

theorem evaluate_congr {m m' : MonitoringService} (h : m'.heartbeats = m.heartbeats)
    (name : String) : m'.evaluate name = m.evaluate name := by
  rw [MonitoringService.evaluate, MonitoringService.evaluate, h]

theorem EntryOf.congr {m m' : MonitoringService} {cfg : ProbeConfig} {st : HealthStatus}
    (he : EntryOf m' cfg st) (h : m'.heartbeats = m.heartbeats) : EntryOf m cfg st := by
  have heval := evaluate_congr h cfg.node
  exact ⟨he.nodeName, heval ▸ he.ok_iff, heval ▸ he.bad_iff⟩

/-- The entries of the probes, and of no other nodes. There may be several of one node, if it is
probed more than once. -/
structure Covers (m : MonitoringService) (probes : List ProbeConfig) (nodes : List HealthStatus) :
    Prop where
  sound : ∀ st ∈ nodes, ∃ cfg ∈ probes, EntryOf m cfg st
  complete : ∀ cfg ∈ probes, ∃ st ∈ nodes, EntryOf m cfg st

theorem rounds_report (tick : Int) (env : String → RestartEnv) (probes : List ProbeConfig)
    (w : World) :
    ∃ new, Covers w.node.monitor probes new ∧
      Reports w new (probes.foldl (World.checkProbe tick env) w) := by
  induction probes generalizing w with
  | nil => exact ⟨[], ⟨nofun, nofun⟩, rfl, rfl, rfl, [], rfl, rfl⟩
  | cons cfg probes ih =>
    obtain ⟨st, hst, hround⟩ := checkProbe_reports w tick env cfg
    obtain ⟨new, hnew, hrest⟩ := ih (w.checkProbe tick env cfg)
    refine ⟨new ++ [st], ⟨fun st' hmem => ?_, fun cfg' hmem => ?_⟩, hround.trans hrest⟩
    · obtain hmem | hmem := List.mem_append.mp hmem
      · obtain ⟨cfg', hcfg, he⟩ := hnew.sound st' hmem
        exact ⟨cfg', List.mem_cons_of_mem _ hcfg, he.congr hround.heartbeats⟩
      · obtain rfl := List.mem_singleton.mp hmem
        exact ⟨cfg, List.mem_cons_self .., hst⟩
    · obtain rfl | hmem := List.mem_cons.mp hmem
      · exact ⟨st, List.mem_append_right _ (List.mem_singleton_self _), hst⟩
      · obtain ⟨st', hst', he⟩ := hnew.complete cfg' hmem
        exact ⟨st', List.mem_append_left _ hst', he.congr hround.heartbeats⟩

/-- **One check** ages the heartbeats, and reports every probe by the age of its heartbeat. A
restart that the check begins does not affect what it reports. -/
theorem checkHealth_report (w : World) (tick : Int) (env : String → RestartEnv) :
    Covers (w.age tick).node.monitor w.node.probes (w.report tick env).nodes ∧
      (w.checkHealth tick env).node.monitor.heartbeats = (w.age tick).node.monitor.heartbeats ∧
      (w.checkHealth tick env).node.probes = w.node.probes ∧
      (w.checkHealth tick env).node.lastTick = tick := by
  obtain ⟨new, hnew, hreports⟩ := rounds_report tick env w.node.probes (w.age tick)
  obtain ⟨l, hlog, hentries⟩ := hreports.log
  have hnodes : (w.report tick env).nodes = new.reverse := by
    have htake : (w.checkHealth tick env).log.take
        ((w.checkHealth tick env).log.length - w.log.length) = l := by
      have hlength : (w.checkHealth tick env).log = l ++ w.log := hlog
      rw [hlength, List.length_append, Nat.add_sub_cancel, List.take_left]
    rw [← hentries, ← htake]
    rfl
  refine ⟨⟨fun st hst => ?_, fun cfg hcfg => ?_⟩, hreports.heartbeats, hreports.probes,
    hreports.lastTick⟩
  · rw [hnodes, List.mem_reverse] at hst
    exact hnew.sound st hst
  · obtain ⟨st, hst, he⟩ := hnew.complete cfg hcfg
    refine ⟨st, ?_, he⟩
    rw [hnodes, List.mem_reverse]
    exact hst

end AmrFramework.Watchdog
