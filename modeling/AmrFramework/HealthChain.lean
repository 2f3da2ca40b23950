import AmrFramework.HealthFeed
import AmrFramework.HealthReports
import Mathlib.Algebra.Order.Field.Rat
import Mathlib.Tactic.NormNum
import Mathlib.Tactic.Positivity
import Mathlib.Tactic.Ring

/-!
# From the heartbeats to the signals

The health monitor ages the heartbeats it received and publishes a report in every
check; the feed of the supervisor takes the reports as they arrive, some late or
never, and signals which children are alive. Between a heartbeat and a signal lie
a check, a report and the other nodes of the child.

The age of a heartbeat is counted in whole checks: a heartbeat is taken to be as
old as the check before it (`agedFrom`), or as the first check of all when it came
earlier. So a node is never thought to be younger than it is, and older by the
distance of two checks at most.
-/

namespace AmrFramework.Watchdog

open Runs

/-- An entry as the feed reads it. -/
def HealthStatus.forFeed (st : HealthStatus) : Monitoring.HealthStatus :=
  ⟨st.nodeName, st.status⟩

/-- What the feed reads of a report: its entries, in the order in which the report lists them.
The stamp is not looked at. -/
def HealthReport.message (report : HealthReport) : List Monitoring.HealthStatus :=
  report.nodes.map HealthStatus.forFeed

/-- The monitor, the reports published and not delivered, and the feed. A report on the topic may
be delivered at any later time, or never. -/
structure HealthChain where
  monitor : World
  clock : Int
  topic : List HealthReport := []
  feed : Monitoring.HealthFeed

inductive ChainEvent
  | beat (name : String) (now : Int)
  | published (report : HealthReport)
  /-- a lifecycle transition is answered -/
  | answered
  | delivered (report : HealthReport) (signals : List (String × Bool))

/-- One callback, of the monitor or of the feed. The clock does not go back, and a report may be
delivered late or never. -/
inductive ChainStep : HealthChain → ChainEvent → HealthChain → Prop
  | beat {s : HealthChain} {now : Int} {w : World} (name : String) (hnow : s.clock ≤ now)
      (hstep : Step s.monitor (.heartbeat name) w) :
      ChainStep s (.beat name now) { s with monitor := w, clock := now }
  | published {s : HealthChain} {now : Int} {w : World} (env : String → RestartEnv)
      (hnow : s.clock ≤ now) (hstep : Step s.monitor (.tick now env) w) :
      ChainStep s (.published (s.monitor.report now env))
        { s with monitor := w, clock := now, topic := s.topic ++ [s.monitor.report now env] }
  | answered {s : HealthChain} {now : Int} {w : World} {r : Request} {success ready : Bool}
      (hnow : s.clock ≤ now) (hstep : Step s.monitor (.response r success now ready) w) :
      ChainStep s .answered { s with monitor := w, clock := now }
  | delivered {s : HealthChain} {report : HealthReport} (hreport : report ∈ s.topic) :
      ChainStep s (.delivered report (Monitoring.dispatch s.feed report.message).2)
        { s with
          topic := s.topic.erase report
          feed := (Monitoring.dispatch s.feed report.message).1 }

def HealthChain.start (probes : List ProbeConfig) (restartEnabled : Bool)
    (m : Monitoring.Mapping) (clock : Int) : HealthChain where
  monitor := .start probes restartEnabled
  clock := clock
  feed := .new m

/-! ## What is asked of a report

Functions of the history of events, with no node in them: when a node was last heard, from which
check its age counts, and how far the checks are apart. -/

/-- The stamp of the last check; zero before the first, as the node's own member is before it has
run once. The check reads zero as "none yet". -/
def lastCheck : List ChainEvent → Int
  | [] => 0
  | .published report :: _ => report.stamp
  | .beat _ _ :: h | .answered :: h | .delivered _ _ :: h => lastCheck h

/-- When a node was last heard. The monitor does not know how long before its first check that
was. -/
def heardAt (name : String) : List ChainEvent → Option Int
  | [] => none
  | .beat node now :: h => if node = name then some now else heardAt name h
  | .published report :: h =>
    if 0 < lastCheck h then heardAt name h else (heardAt name h).map fun _ => report.stamp
  | .answered :: h | .delivered _ _ :: h => heardAt name h

/-- The check from which the age of the last heartbeat counts: the last one before the heartbeat,
or the first one after it when there was none. A heartbeat sets the age to zero, and only checks
add to it. -/
def agedFrom (name : String) : List ChainEvent → Option Int
  | [] => none
  | .beat node _ :: h => if node = name then some (lastCheck h) else agedFrom name h
  | .published report :: h =>
    if 0 < lastCheck h then agedFrom name h else (agedFrom name h).map fun _ => report.stamp
  | .answered :: h | .delivered _ _ :: h => agedFrom name h

/-- Two checks are at most `g` apart. -/
def Gaps (g : Nat) : List ChainEvent → Prop
  | [] => True
  | .published report :: h => (0 < lastCheck h → report.stamp ≤ lastCheck h + g) ∧ Gaps g h
  | .beat _ _ :: h | .answered :: h | .delivered _ _ :: h => Gaps g h

/-- The timeout that a node is registered with. -/
def timeoutOf (probes : List ProbeConfig) (name : String) : Option ℚ :=
  ((HealthMonitor.configured probes true).monitor.heartbeats name).map NodeHeartbeat.timeoutS

/-- Nanoseconds, in seconds. -/
def seconds (ns : Int) : ℚ := (ns : ℚ) / 10 ^ 9

/-- The node was silent for this long at the check. The length is compared with the timeout that
the node is registered with, so `p` is one of the two comparisons of `NodeHeartbeat.evaluate`. -/
def Silent (probes : List ProbeConfig) (before : List ChainEvent) (stamp : Int) (name : String)
    (p : ℚ → ℚ → Prop) : Prop :=
  ∃ timeout heard, timeoutOf probes name = some timeout ∧ heardAt name before = some heard ∧
    p timeout (seconds (stamp - heard))

variable {s s' : HealthChain} {e : ChainEvent} {h : List ChainEvent} {name : String} {g : Nat}

/-! ## The ages

The monitor holds an age for each node and adds to it in every check. So its state can be read
off the history (`Ages`), one lemma for each kind of event. -/

/-- The heartbeat has the age that counts from this check. A node that was never heard keeps the
negative age that it was registered with. -/
def NodeHeartbeat.Aged (hb : NodeHeartbeat) (last : Int) : Option Int → Prop
  | none => hb.lastSeenS < 0
  | some start => hb.lastSeenS = seconds (last - start) ∧ 0 ≤ start ∧ start ≤ last ∧
      (0 < last → 0 < start)

structure Ages (probes : List ProbeConfig) (h : List ChainEvent) (s : HealthChain) : Prop where
  clock : lastCheck h ≤ s.clock ∧ 0 < s.clock
  lastTick : s.monitor.node.lastTick = lastCheck h ∧ 0 ≤ lastCheck h
  probes_eq : s.monitor.node.probes = probes
  timeouts : ∀ name, (s.monitor.node.monitor.heartbeats name).map NodeHeartbeat.timeoutS =
    timeoutOf probes name
  aged : ∀ name hb, s.monitor.node.monitor.heartbeats name = some hb →
    hb.Aged (lastCheck h) (agedFrom name h)

variable {probes : List ProbeConfig}

theorem heartbeats_registerNode (m : MonitoringService) (node : String) (timeoutS : ℚ) :
    (m.registerNode node timeoutS).heartbeats =
      Function.update m.heartbeats node (some ⟨timeoutS, -1⟩) :=
  rfl

/-- Only probes are registered, and none of them has been heard. This is the state of the monitor
before the first callback. -/
theorem registered_probe (probes : List ProbeConfig) (m : MonitoringService) {hb : NodeHeartbeat}
    (hhb : (probes.foldl (fun m cfg => m.registerNode cfg.node cfg.timeoutS) m).heartbeats name =
      some hb) :
    m.heartbeats name = some hb ∨ (hb.lastSeenS < 0 ∧ ∃ cfg ∈ probes, cfg.node = name) := by
  induction probes generalizing m with
  | nil => exact .inl hhb
  | cons cfg probes ih =>
    obtain hold | ⟨hnever, cfg', hmem, hname⟩ := ih _ hhb
    · by_cases hname : name = cfg.node
      · rw [heartbeats_registerNode, hname, Function.update_self] at hold
        obtain rfl := Option.some.inj hold
        exact .inr ⟨by norm_num, cfg, List.mem_cons_self .., hname.symm⟩
      · rw [heartbeats_registerNode, Function.update_of_ne hname] at hold
        exact .inl hold
    · exact .inr ⟨hnever, cfg', List.mem_cons_of_mem _ hmem, hname⟩

/-- A heartbeat received has the age zero, whatever time has gone by since the last check. The
others keep theirs. -/
theorem Ages.beat (h₀ : Ages probes h s) (name : String) {now : Int} (hnow : s.clock ≤ now) :
    Ages probes (.beat name now :: h) { s with
      monitor := { s.monitor with
        node.monitor := s.monitor.node.monitor.heartbeatReceived name 0 }
      clock := now } := by
  obtain ⟨hlast, hpos⟩ := h₀.clock
  have hreceived : ∀ other, (s.monitor.node.monitor.heartbeatReceived name 0).heartbeats other =
      (s.monitor.node.monitor.heartbeats other).map fun hb =>
        if name = other then { hb with lastSeenS := 0 } else hb := by
    intro other
    rw [MonitoringService.heartbeatReceived]
    cases hhb : s.monitor.node.monitor.heartbeats name with
    | none =>
      by_cases hname : name = other
      · rw [← hname, hhb]
        rfl
      · simp [hname]
    | some hb =>
      dsimp only
      by_cases hname : name = other
      · rw [← hname, Function.update_self, hhb]
        simp
      · simp [Function.update_of_ne (Ne.symm hname), hname]
  have hnowpos : 0 < now := hpos.trans_le hnow
  refine ⟨⟨hlast.trans hnow, hnowpos⟩, h₀.lastTick, h₀.probes_eq, fun other => ?_,
    fun other hb hhb => ?_⟩
  · rw [← h₀.timeouts, hreceived, Option.map_map]
    refine congrArg (Option.map · _) (funext fun hb => ?_)
    rw [Function.comp_apply]
    split <;> rfl
  · obtain ⟨hb₀, hhb₀, rfl⟩ := Option.map_eq_some_iff.mp ((hreceived other).symm.trans hhb)
    rw [agedFrom]
    by_cases hname : name = other
    · rw [if_pos hname, if_pos hname]
      refine ⟨?_, h₀.lastTick.2, le_rfl, id⟩
      rw [lastCheck, seconds, sub_self, Int.cast_zero, zero_div]
    · rw [if_neg hname, if_neg hname]
      exact h₀.aged other hb₀ hhb₀

/-- A check adds the time since the one before. The first check adds nothing, which is why what
was heard before it counts from there. -/
theorem Ages.tick (h₀ : Ages probes h s) {now : Int} (hnow : s.clock ≤ now) {hb : NodeHeartbeat}
    (hhb : (s.monitor.age now).node.monitor.heartbeats name = some hb) {report : HealthReport}
    (hstamp : report.stamp = now) :
    hb.Aged now (agedFrom name (.published report :: h)) := by
  obtain ⟨hlast, hpos⟩ := h₀.clock
  obtain ⟨htick, hzero⟩ := h₀.lastTick
  have hnowpos : 0 < now := hpos.trans_le hnow
  rw [agedFrom]
  rw [World.age, htick] at hhb
  dsimp only at hhb
  by_cases hfirst : 0 < lastCheck h
  · rw [if_pos hfirst] at hhb ⊢
    obtain ⟨hb₀, hhb₀, rfl⟩ := Option.map_eq_some_iff.mp hhb
    have haged := h₀.aged name hb₀ hhb₀
    cases hfrom : agedFrom name h with
    | none =>
      rw [hfrom] at haged
      rw [if_neg (not_le.mpr haged)]
      exact haged
    | some start =>
      rw [hfrom] at haged
      obtain ⟨hage, hstart, hle, hstartpos⟩ := haged
      have hseen : 0 ≤ hb₀.lastSeenS := by
        rw [hage, seconds]
        have hcast : (0 : ℚ) ≤ ((lastCheck h - start : Int) : ℚ) := by
          exact_mod_cast sub_nonneg.mpr hle
        positivity
      rw [if_pos hseen]
      refine ⟨?_, hstart, by omega, fun _ => hstartpos hfirst⟩
      rw [hage, seconds, seconds]
      push_cast
      ring
  · rw [if_neg hfirst] at hhb ⊢
    have haged := h₀.aged name hb hhb
    have hlastzero : lastCheck h = 0 := by omega
    cases hfrom : agedFrom name h with
    | none =>
      rw [hfrom] at haged
      exact haged
    | some start =>
      rw [hfrom] at haged
      obtain ⟨hage, hstart, hle, -⟩ := haged
      have hstartzero : start = 0 := by omega
      rw [hlastzero, hstartzero, sub_self] at hage
      rw [Option.map_some, hstamp]
      refine ⟨?_, hnowpos.le, le_rfl, id⟩
      rw [hage, sub_self]

/-- An answer to a restart leaves the heartbeats. The restart protocol moves on, but the
monitor's table and the time of the last check stay. -/
theorem response_kept {w : World} {r : Request} (success : Bool) (now : Int) (ready : Bool) :
    ∃ w₀, Reports w₀ [] (World.handleTransitionResponse
        { w with pending := w.pending.erase r, log := .answered r success :: w.log } success now
        ready) ∧
      w₀.node.monitor = w.node.monitor ∧ w₀.node.probes = w.node.probes ∧
      w₀.node.lastTick = w.node.lastTick := by
  rw [World.handleTransitionResponse]
  split
  · exact ⟨_, ⟨rfl, rfl, rfl, [], rfl, rfl⟩, rfl, rfl, rfl⟩
  · exact ⟨_, sendNextTransition_reports .., rfl, rfl, rfl⟩

theorem timeouts_age (w : World) (now : Int) (name : String) :
    ((w.age now).node.monitor.heartbeats name).map NodeHeartbeat.timeoutS =
      (w.node.monitor.heartbeats name).map NodeHeartbeat.timeoutS := by
  rw [World.age]
  dsimp only
  split
  · rw [MonitoringService.tick, Option.map_map]
    refine congrArg (Option.map · _) (funext fun hb => ?_)
    rw [Function.comp_apply]
    split <;> rfl
  · rfl

/-- **One step** keeps the ages: a check ages every heartbeat by the time since the check before,
and one that arrives is of age zero. -/
theorem Ages.step (h₀ : Ages probes h s) (hstep : ChainStep s e s') : Ages probes (e :: h) s' := by
  obtain ⟨hlast, hpos⟩ := h₀.clock
  cases hstep with
  | beat name hnow hstep =>
    cases hstep with
    | heartbeat => exact h₀.beat name hnow
  | @published now _ env hnow hstep =>
    cases hstep with
    | tick =>
      obtain ⟨-, hheartbeats, hprobes, htick⟩ := checkHealth_report s.monitor now env
      have hnowpos : 0 < now := hpos.trans_le hnow
      refine ⟨⟨le_rfl, hnowpos⟩, ⟨htick, hnowpos.le⟩, hprobes.trans h₀.probes_eq,
        fun name => ?_, fun name hb hhb => ?_⟩
      · rw [hheartbeats, ← h₀.timeouts]
        exact timeouts_age ..
      · rw [hheartbeats] at hhb
        exact h₀.tick hnow hhb rfl
  | @answered now _ r success ready hnow hstep =>
    cases hstep with
    | response =>
      obtain ⟨w₀, hkept, hmonitor, hprobes, htick⟩ := response_kept success now ready
      have hheartbeats := hkept.heartbeats.trans (congrArg _ hmonitor)
      have hnowpos : 0 < now := hpos.trans_le hnow
      refine ⟨⟨hlast.trans hnow, hnowpos⟩, ⟨(hkept.lastTick.trans htick).trans h₀.lastTick.1,
        h₀.lastTick.2⟩, (hkept.probes.trans hprobes).trans h₀.probes_eq, fun name => ?_,
        fun name hb hhb => ?_⟩
      · rw [← h₀.timeouts]
        exact congrArg _ (congrFun hheartbeats name)
      · exact h₀.aged name hb ((congrFun hheartbeats name).symm.trans hhb)
  | delivered hreport => exact ⟨h₀.clock, h₀.lastTick, h₀.probes_eq, h₀.timeouts, h₀.aged⟩

/-! ## When a node was heard

The check that an age counts from is not when the node was heard, but the last one before it, and
the next one is at most one gap later. -/

/-- The check from which an age counts, and when the node was heard: at that check or later, and
before the next. -/
def Heard (g : Nat) (clock last : Int) : Option Int → Option Int → Prop
  | some start, some heard => start ≤ heard ∧ heard ≤ clock ∧
      (0 < last → heard ≤ start + g ∨ start = last)
  | none, none => True
  | _, _ => False

theorem Heard.later {clock clock' last : Int} {start heard : Option Int}
    (hheard : Heard g clock last start heard) (hle : clock ≤ clock') :
    Heard g clock' last start heard := by
  cases start with
  | none =>
    cases heard with
    | none => trivial
    | some heard => exact hheard.elim
  | some start =>
    cases heard with
    | none => exact hheard.elim
    | some heard => exact ⟨hheard.1, hheard.2.1.trans hle, hheard.2.2⟩

/-- At a check the distance is one of two checks at most. The heartbeat lies between the check
its age counts from and the next, and these are no further apart than `g`. -/
theorem Heard.check {clock now : Int} (hheard : Heard g clock (lastCheck h) (agedFrom name h)
    (heardAt name h)) (hnow : clock ≤ now) {report : HealthReport} (hstamp : report.stamp = now)
    (hgap : 0 < lastCheck h → report.stamp ≤ lastCheck h + g) :
    (agedFrom name (.published report :: h) = none ∧
      heardAt name (.published report :: h) = none) ∨
    ∃ start heard, agedFrom name (.published report :: h) = some start ∧
      heardAt name (.published report :: h) = some heard ∧ start ≤ heard ∧ heard ≤ now ∧
      heard ≤ start + g := by
  rw [agedFrom, heardAt]
  cases hstart : agedFrom name h with
  | none =>
    cases hheardAt : heardAt name h with
    | none => exact .inl ⟨ite_self .., ite_self ..⟩
    | some heard =>
      rw [hstart, hheardAt] at hheard
      exact hheard.elim
  | some start =>
    cases hheardAt : heardAt name h with
    | none =>
      rw [hstart, hheardAt] at hheard
      exact hheard.elim
    | some heard =>
      rw [hstart, hheardAt] at hheard
      obtain ⟨hle, hclock, hnear⟩ := hheard
      by_cases hfirst : 0 < lastCheck h
      · rw [if_pos hfirst, if_pos hfirst]
        refine .inr ⟨start, heard, rfl, rfl, hle, hclock.trans hnow, ?_⟩
        have hnext := hgap hfirst
        obtain hnear | hlast := hnear hfirst
        · exact hnear
        · omega
      · rw [if_neg hfirst, if_neg hfirst]
        exact .inr ⟨report.stamp, report.stamp, rfl, rfl, le_rfl, hstamp.le, by omega⟩

/-- **One step** keeps it: a heartbeat is aged from the check before it arrived, which is earlier
by the distance of two checks at most. -/
theorem Heard.step (h₀ : Ages probes h s) (hheard : Heard g s.clock (lastCheck h) (agedFrom name h)
    (heardAt name h)) (hgaps : Gaps g (e :: h)) (hstep : ChainStep s e s') :
    Heard g s'.clock (lastCheck (e :: h)) (agedFrom name (e :: h)) (heardAt name (e :: h)) := by
  cases hstep with
  | @beat now _ node hnow hstep =>
    rw [lastCheck, agedFrom, heardAt]
    by_cases hname : node = name
    · rw [if_pos hname, if_pos hname]
      exact ⟨h₀.clock.1.trans hnow, le_rfl, fun _ => .inr rfl⟩
    · rw [if_neg hname, if_neg hname]
      exact hheard.later hnow
  | @published now _ env hnow hstep =>
    obtain ⟨hstart, hheardAt⟩ | ⟨start, heard, hstart, hheardAt, hle, hclock, hnear⟩ :=
      hheard.check hnow rfl hgaps.1
    · rw [hstart, hheardAt]
      trivial
    · rw [hstart, hheardAt]
      exact ⟨hle, hclock, fun _ => .inl hnear⟩
  | answered hnow hstep => exact hheard.later hnow
  | delivered hreport => exact hheard

theorem Gaps.of_cons (hgaps : Gaps g (e :: h)) : Gaps g h := by
  cases e with
  | published report => exact hgaps.2
  | beat name now => exact hgaps
  | answered => exact hgaps
  | delivered report signals => exact hgaps

/-! ## A report in time

What the status says about the silence of a node. It may be wrong by one gap, in one direction
only: a node is thought to be older than it is. -/

/-- What the entries of a report say about the silence of the nodes: OK is said of a node heard
within the warning time, ERROR or FATAL of every node that was silent for longer than its timeout,
and of none that was heard a check before that. -/
structure Accurate (probes : List ProbeConfig) (g : Nat) (report : HealthReport)
    (before : List ChainEvent) : Prop where
  ok : ∀ st ∈ report.nodes, st.status = "OK" →
    Silent probes (.published report :: before) report.stamp st.nodeName
      fun timeout silence => silence ≤ timeout * kWarnRatio
  bad : ∀ st ∈ report.nodes, st.Bad →
    Silent probes (.published report :: before) report.stamp st.nodeName
      fun timeout silence => timeout < silence + seconds g
  overdue : ∀ name, Silent probes (.published report :: before) report.stamp name
      (fun timeout silence => timeout < silence) →
    (∃ st ∈ report.nodes, st.nodeName = name) ∧ ∀ st ∈ report.nodes, st.nodeName = name → st.Bad

theorem seconds_mono {a b : Int} (hle : a ≤ b) : seconds a ≤ seconds b := by
  have hcast : (a : ℚ) ≤ b := by exact_mod_cast hle
  exact div_le_div_of_nonneg_right hcast (by norm_num)

theorem seconds_add (a b : Int) : seconds (a + b) = seconds a + seconds b := by
  rw [seconds, Int.cast_add, add_div]
  rfl

theorem NodeHeartbeat.evaluate_ok {hb : NodeHeartbeat} (hok : hb.evaluate = .ok) :
    0 ≤ hb.lastSeenS ∧ hb.lastSeenS ≤ hb.timeoutS * kWarnRatio := by
  rw [evaluate] at hok
  split at hok
  · cases hok
  · next hnever =>
    split at hok
    · cases hok
    · split at hok
      · cases hok
      · next hwarn => exact ⟨not_lt.mp hnever, not_lt.mp hwarn⟩

theorem NodeHeartbeat.evaluate_error {hb : NodeHeartbeat} :
    hb.evaluate = .error ↔ 0 ≤ hb.lastSeenS ∧ hb.timeoutS < hb.lastSeenS := by
  rw [evaluate, ← not_lt]
  by_cases hnever : hb.lastSeenS < 0
  · rw [if_pos hnever]
    exact iff_of_false (by decide) fun hlate => hlate.1 hnever
  · rw [if_neg hnever]
    by_cases hlate : hb.timeoutS < hb.lastSeenS
    · rw [if_pos hlate]
      exact iff_of_true rfl ⟨hnever, hlate⟩
    · rw [if_neg hlate]
      refine iff_of_false (fun h => ?_) fun h => hlate h.2
      split at h <;> cases h

/-- A node that is evaluated so has been heard. A node that is not in the table, or was never
heard, is stale. -/
theorem exists_of_evaluate {m : MonitoringService} {status : NodeStatus} (hne : status ≠ .stale)
    (heval : m.evaluate name = status) :
    ∃ hb, m.heartbeats name = some hb ∧ hb.evaluate = status := by
  rw [MonitoringService.evaluate] at heval
  split at heval
  · exact absurd heval.symm hne
  · next hb hhb => exact ⟨hb, hhb, heval⟩

/-- What a check knows of a node that was heard. -/
theorem Ages.known (h₀ : Ages probes h s) {now : Int} (hnow : s.clock ≤ now)
    (hheard : Heard g s.clock (lastCheck h) (agedFrom name h) (heardAt name h))
    {report : HealthReport} (hstamp : report.stamp = now)
    (hgap : 0 < lastCheck h → report.stamp ≤ lastCheck h + g) {hb : NodeHeartbeat}
    (hhb : (s.monitor.age now).node.monitor.heartbeats name = some hb) :
    timeoutOf probes name = some hb.timeoutS ∧
    ((hb.lastSeenS < 0 ∧ heardAt name (.published report :: h) = none) ∨
      ∃ heard, heardAt name (.published report :: h) = some heard ∧ 0 ≤ hb.lastSeenS ∧
        seconds (report.stamp - heard) ≤ hb.lastSeenS ∧
        hb.lastSeenS ≤ seconds (report.stamp - heard) + seconds g) := by
  refine ⟨?_, ?_⟩
  · rw [← h₀.timeouts, ← timeouts_age _ now, hhb]
    rfl
  · have haged := h₀.tick hnow hhb hstamp
    obtain ⟨hstart, hheardAt⟩ | ⟨start, heard, hstart, hheardAt, hle, hclock, hnear⟩ :=
      hheard.check hnow hstamp hgap
    · rw [hstart] at haged
      exact .inl ⟨haged, hheardAt⟩
    · rw [hstart] at haged
      obtain ⟨hage, -, hpast, -⟩ := haged
      refine .inr ⟨heard, hheardAt, ?_, ?_, ?_⟩
      · rw [hage]
        have hzero : seconds 0 = 0 := by rw [seconds, Int.cast_zero, zero_div]
        exact hzero ▸ seconds_mono (by omega)
      · rw [hage, hstamp]
        exact seconds_mono (by omega)
      · rw [hage, hstamp, ← seconds_add]
        exact seconds_mono (by omega)

/-- **A check** publishes an accurate report. The entry of a node is that of its age, which is
the time since the check that it counts from. -/
theorem accurate_report (h₀ : Ages probes h s) {now : Int} (hnow : s.clock ≤ now)
    (hheard : ∀ name, Heard g s.clock (lastCheck h) (agedFrom name h) (heardAt name h))
    (env : String → RestartEnv) (hgap : 0 < lastCheck h → now ≤ lastCheck h + g) :
    Accurate probes g (s.monitor.report now env) h := by
  obtain ⟨hcovers, -⟩ := checkHealth_report s.monitor now env
  rw [h₀.probes_eq] at hcovers
  have hstamp : (s.monitor.report now env).stamp = now := rfl
  have hknown (name : String) (hb : NodeHeartbeat)
      (hhb : (s.monitor.age now).node.monitor.heartbeats name = some hb) :=
    h₀.known hnow (hheard name) hstamp hgap hhb
  refine ⟨fun st hst hok => ?_, fun st hst hbad => ?_, fun name hsilent => ?_⟩
  · obtain ⟨cfg, -, hentry⟩ := hcovers.sound st hst
    obtain ⟨hb, hhb, heval⟩ := exists_of_evaluate (by decide) (hentry.ok_iff.mp hok)
    obtain ⟨hseen, hfresh⟩ := hb.evaluate_ok heval
    rw [hentry.nodeName]
    obtain ⟨htimeout, ⟨hnever, -⟩ | ⟨heard, hheardAt, -, hlow, -⟩⟩ := hknown cfg.node hb hhb
    · exact absurd hnever (not_lt.mpr hseen)
    · exact ⟨_, heard, htimeout, hheardAt, hlow.trans hfresh⟩
  · obtain ⟨cfg, -, hentry⟩ := hcovers.sound st hst
    obtain ⟨hb, hhb, heval⟩ := exists_of_evaluate (by decide) (hentry.bad_iff.mp hbad)
    obtain ⟨hseen, hlate⟩ := NodeHeartbeat.evaluate_error.mp heval
    rw [hentry.nodeName]
    obtain ⟨htimeout, ⟨hnever, -⟩ | ⟨heard, hheardAt, -, -, hhigh⟩⟩ := hknown cfg.node hb hhb
    · exact absurd hnever (not_lt.mpr hseen)
    · exact ⟨_, heard, htimeout, hheardAt, hlate.trans_le hhigh⟩
  · obtain ⟨timeout, heard, htimeout, hheardAt, hlong⟩ := hsilent
    -- the node is registered, and so it is a probe
    obtain ⟨hb₀, hhb₀, -⟩ := Option.map_eq_some_iff.mp htimeout
    obtain hnone | ⟨-, cfg, hcfg, rfl⟩ := registered_probe probes {} hhb₀
    · cases hnone
    have herror : (s.monitor.age now).node.monitor.evaluate cfg.node = .error := by
      have htimeouts : ((s.monitor.age now).node.monitor.heartbeats cfg.node).map
          NodeHeartbeat.timeoutS = some timeout := by
        rw [timeouts_age, h₀.timeouts, htimeout]
      obtain ⟨hb, hhb, rfl⟩ := Option.map_eq_some_iff.mp htimeouts
      obtain ⟨-, ⟨-, hnever⟩ | ⟨heard', hheard', hseen, hlow, -⟩⟩ := hknown cfg.node hb hhb
      · cases hnever.symm.trans hheardAt
      · obtain rfl := Option.some.inj (hheard'.symm.trans hheardAt)
        rw [MonitoringService.evaluate, hhb]
        exact NodeHeartbeat.evaluate_error.mpr ⟨hseen, hlong.trans_le hlow⟩
    refine ⟨?_, fun st hst hname => ?_⟩
    · obtain ⟨st, hst, hentry⟩ := hcovers.complete cfg hcfg
      exact ⟨st, hst, hentry.nodeName⟩
    · obtain ⟨cfg', -, hentry⟩ := hcovers.sound st hst
      refine hentry.bad_iff.mpr ?_
      rw [← hentry.nodeName, hname]
      exact herror

end AmrFramework.Watchdog
