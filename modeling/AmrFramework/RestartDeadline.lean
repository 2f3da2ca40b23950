import AmrFramework.RestartProtocol

/-!
# The deadline of a restart

A restart has thirty seconds. The deadline is looked at before a request is sent,
and the next request is only sent by a response: a restart whose request is never
answered stays in progress, and every restart granted after it is skipped.

A tick skips a restart for one that is out of time exactly when a request is
unanswered past its deadline and a node is due.
-/

namespace AmrFramework.Watchdog

open Runs

/-- A restart is skipped only for one that still has time. -/
def Timely : Rec → Prop
  | .skipped _ tick (some deadline) => tick ≤ deadline
  | _ => True

instance : DecidablePred Timely
  | .skipped _ tick (some deadline) => inferInstanceAs (Decidable (tick ≤ deadline))
  | .skipped _ _ none => .isTrue trivial
  | .reported _ => .isTrue trivial
  | .granted _ => .isTrue trivial
  | .begun _ => .isTrue trivial
  | .sent _ => .isTrue trivial
  | .answered _ _ => .isTrue trivial

/-- A node is overdue, with attempts left, in a tick at `now`. -/
def World.Due (w : World) (now : Int) : Prop :=
  w.node.restartEnabled = true ∧
    ∃ cfg ∈ w.node.probes, (w.age now).node.monitor.escalatedStatus cfg.node = .error

instance (w : World) (now : Int) : Decidable (w.Due now) :=
  inferInstanceAs (Decidable (_ ∧ ∃ cfg ∈ w.node.probes, _))

/-- No node is due in a tick while a request is unanswered past its deadline. -/
def InTime (w : World) : Event → Prop
  | .tick now _ => (∃ r ∈ w.pending, r.deadline < now) → ¬ w.Due now
  | _ => True

instance (w : World) : (e : Event) → Decidable (InTime w e)
  | .tick now _ =>
    inferInstanceAs (Decidable ((∃ r ∈ w.pending, r.deadline < now) → ¬ w.Due now))
  | .heartbeat _ => .isTrue trivial
  | .response .. => .isTrue trivial

variable {w : World} {tick : Int} {env : String → RestartEnv}

/-! ## A tick while the restart has time

Nothing in such a tick is skipped for a restart that is late: the one in progress is not, and one
that is begun in the tick has all its time. -/

/-- The restart in progress, if there is one, has time at `tick`. -/
def World.HasTime (w : World) (tick : Int) : Prop :=
  w.node.restart.inProgress = true → tick ≤ w.node.restart.deadline

def AllTimely (log : List Rec) : Prop := ∀ e ∈ log, Timely e

theorem allTimely_cons {e : Rec} {log : List Rec} :
    AllTimely (e :: log) ↔ Timely e ∧ AllTimely log := List.forall_mem_cons

theorem allTimely_sendNextTransition (w : World) (now : Int) (ready : Bool) :
    AllTimely (w.sendNextTransition now ready).log ↔ AllTimely w.log := by
  obtain heq | ⟨t, -, heq⟩ := sendNextTransition_cases w now ready <;> rw [heq]
  · rfl
  · exact allTimely_cons.trans (and_iff_right trivial)

theorem World.HasTime.sendNextTransition (h : w.HasTime tick) (now : Int) (ready : Bool) :
    (w.sendNextTransition now ready).HasTime tick := by
  obtain heq | ⟨t, -, heq⟩ := sendNextTransition_cases w now ready <;> rw [heq]
  · exact nofun
  · exact h

/-- A restart begun in the tick gets its full time. -/
theorem World.HasTime.beginRestart (h : w.HasTime tick) (name : String) (env : RestartEnv) :
    (w.beginRestart name tick env).HasTime tick ∧
      (AllTimely (w.beginRestart name tick env).log ↔ AllTimely w.log) := by
  obtain ⟨hbusy, heq⟩ | ⟨-, heq⟩ | ⟨-, heq⟩ := beginRestart_cases w name tick env <;> rw [heq]
  · exact ⟨h, allTimely_cons.trans (and_iff_right (h hbusy))⟩
  · exact ⟨h, allTimely_cons.trans (and_iff_right trivial)⟩
  · have hbegun : (w.begun name tick env).HasTime tick := fun _ => by
      change tick ≤ tick + env.untilBegin + kRestartTimeoutNs
      rw [kRestartTimeoutNs]
      omega
    refine ⟨hbegun.sendNextTransition _ _, (allTimely_sendNextTransition ..).trans ?_⟩
    exact allTimely_cons.trans (and_iff_right trivial)

theorem World.HasTime.checkProbe (h : w.HasTime tick) (env : String → RestartEnv)
    (cfg : ProbeConfig) :
    (w.checkProbe tick env cfg).HasTime tick ∧
      (AllTimely (w.checkProbe tick env cfg).log ↔ AllTimely w.log) := by
  obtain ⟨-, -, st, -, -, heq⟩ | ⟨-, st, -, -, heq⟩ | ⟨-, -, st, -, -, heq⟩ :=
    checkProbe_cases w tick env cfg <;> rw [heq]
  · have hgranted : ((w.counted cfg.node).push (.granted cfg.node)).HasTime tick := h
    obtain ⟨htime, hlog⟩ := hgranted.beginRestart cfg.node (env cfg.node)
    refine ⟨htime, allTimely_cons.trans ((and_iff_right trivial).trans (hlog.trans ?_))⟩
    exact allTimely_cons.trans (and_iff_right trivial)
  · exact ⟨h, allTimely_cons.trans (and_iff_right trivial)⟩
  · exact ⟨h, allTimely_cons.trans (and_iff_right trivial)⟩

theorem World.HasTime.checkProbes (h : w.HasTime tick) (probes : List ProbeConfig) :
    AllTimely (probes.foldl (World.checkProbe tick env) w).log ↔ AllTimely w.log := by
  induction probes generalizing w with
  | nil => rfl
  | cons cfg probes ih =>
    obtain ⟨htime, hlog⟩ := h.checkProbe env cfg
    exact (ih htime).trans hlog

/-! ## A tick when the restart is out of time

The restart stays in progress through the whole tick, so every node that is due is skipped for
it. -/

/-- The restart in progress is out of time at `tick`. -/
def World.OutOfTime (w : World) (tick : Int) : Prop :=
  w.node.restart.inProgress = true ∧ w.node.restart.deadline < tick

theorem hasTime_of_not_outOfTime (h : ¬ w.OutOfTime tick) : w.HasTime tick :=
  fun hbusy => Int.not_lt.mp fun hlate => h ⟨hbusy, hlate⟩

/-- A recovered node was not overdue, and stays so. -/
theorem escalatedStatus_onRecovered {m : MonitoringService} {name : String}
    (h : m.escalatedStatus name = .ok) (other : String) :
    (m.onRecovered name).escalatedStatus other = .error ↔ m.escalatedStatus other = .error := by
  by_cases hother : other = name
  · obtain rfl := hother
    rw [h, escalatedStatus_eq_error]
    refine iff_of_false (fun herr => ?_) nofun
    have heval : m.evaluate other = .error := herr.1
    rw [MonitoringService.escalatedStatus, heval, escalate] at h
    split at h <;> cases h
  · have hrecovery : (m.onRecovered name).recovery other = m.recovery other :=
      Function.update_of_ne hother ..
    rw [escalatedStatus_eq_error, escalatedStatus_eq_error, hrecovery]
    rfl

/-- A restart that is out of time stays so during a tick, and every granted
restart is skipped for it. -/
theorem World.OutOfTime.checkProbes (h : w.OutOfTime tick) (probes : List ProbeConfig) :
    AllTimely (probes.foldl (World.checkProbe tick env) w).log ↔
      AllTimely w.log ∧ ¬ (w.node.restartEnabled = true ∧
        ∃ cfg ∈ probes, w.node.monitor.escalatedStatus cfg.node = .error) := by
  induction probes generalizing w with
  | nil => exact (and_iff_left fun ⟨_, _, hmem, _⟩ => List.not_mem_nil hmem).symm
  | cons cfg probes ih =>
    rw [List.foldl_cons, List.exists_mem_cons_iff]
    obtain ⟨henabled, herr, st, -, -, heq⟩ | ⟨hok, st, -, -, heq⟩ | ⟨hnot, -, st, -, -, heq⟩ :=
      checkProbe_cases w tick env cfg <;> rw [heq]
    · have hgranted : ((w.counted cfg.node).push (.granted cfg.node)).OutOfTime tick := h
      have hskip : ((w.counted cfg.node).push (.granted cfg.node)).beginRestart cfg.node tick
          (env cfg.node) = ((w.counted cfg.node).push (.granted cfg.node)).push
            (.skipped cfg.node tick (some w.node.restart.deadline)) := if_pos hgranted.1
      rw [hskip, ih (by exact h)]
      refine iff_of_false (fun ⟨hlog, _⟩ => ?_) (fun ⟨_, hdue⟩ => hdue ⟨henabled, .inl herr⟩)
      have htimely := (allTimely_cons.mp (allTimely_cons.mp hlog).2).1
      exact absurd h.2 (Int.not_lt.mpr htimely)
    · have hsame := escalatedStatus_onRecovered hok
      rw [ih (by exact h)]
      refine and_congr (allTimely_cons.trans (and_iff_right trivial)) (not_congr ?_)
      refine and_congr_right fun _ => ?_
      have hne : w.node.monitor.escalatedStatus cfg.node ≠ .error := by
        rw [hok]
        exact nofun
      rw [or_iff_right hne]
      exact exists_congr fun cfg' => and_congr_right fun _ => hsame cfg'.node
    · rw [ih (by exact h)]
      refine and_congr (allTimely_cons.trans (and_iff_right trivial)) (not_congr ?_)
      refine and_congr_right fun henabled => ?_
      exact (or_iff_right (hnot henabled)).symm

/-! ## Runs

The restart is in progress exactly while one of its requests is unanswered (`Proto`), so whether
a tick is in time can be seen from the requests. -/

/-- A request is unanswered past its deadline exactly when the restart is out of
time. -/
theorem Proto.outOfTime_iff (h : Proto w) (now : Int) :
    w.OutOfTime now ↔ ∃ r ∈ w.pending, r.deadline < now := by
  cases hbusy : w.node.restart.inProgress with
  | false =>
    rw [h.idle hbusy]
    refine iff_of_false (fun hlate => ?_) nofun
    exact Bool.false_ne_true (hbusy.symm.trans hlate.1)
  | true =>
    obtain ⟨t, -, hpending, -⟩ := h.busy hbusy
    rw [hpending, List.exists_mem_cons_iff]
    refine ⟨fun hlate => .inl hlate.2, fun hlate => ⟨hbusy, ?_⟩⟩
    exact hlate.resolve_right nofun

theorem Proto.tick_timely_iff (h : Proto w) (now : Int) (env : String → RestartEnv) :
    AllTimely (w.checkHealth now env).log ↔ AllTimely w.log ∧ InTime w (.tick now env) := by
  by_cases hlate : w.OutOfTime now
  · have hlate' : (w.age now).OutOfTime now := hlate
    refine hlate'.checkProbes w.node.probes |>.trans (and_congr_right fun _ => ?_)
    exact (imp_iff_right ((h.outOfTime_iff now).mp hlate)).symm
  · have htime : (w.age now).HasTime now := hasTime_of_not_outOfTime hlate
    refine (htime.checkProbes w.node.probes).trans (and_iff_left fun hpast => ?_).symm
    exact absurd ((h.outOfTime_iff now).mpr hpast) hlate

/-- **One callback** leaves the log timely exactly when it is taken in time. Only a tick can skip
a restart, so only a tick can fail to be. -/
theorem Proto.timely_iff {w' : World} {e : Event} (h : Proto w) (hstep : Step w e w') :
    AllTimely w'.log ↔ AllTimely w.log ∧ InTime w e := by
  cases hstep with
  | heartbeat name => exact (and_iff_left trivial).symm
  | tick now env => exact h.tick_timely_iff now env
  | response hr success now ready =>
    refine Iff.trans ?_ (and_iff_left trivial).symm
    rw [World.handleTransitionResponse]
    split
    · exact allTimely_cons.trans (and_iff_right trivial)
    · refine (allTimely_sendNextTransition ..).trans ?_
      exact allTimely_cons.trans (and_iff_right trivial)

/-- **The deadline.** In a run, no restart is skipped for one that is out of time exactly when
every tick of the run is in time. The deadline is looked at by the ticks only, before and not
while they begin restarts. -/
theorem timely_iff_inTime (probes : List ProbeConfig) (restartEnabled : Bool) (h : List Event)
    (w : World) (hr : Run Step (.start probes restartEnabled) h w) :
    (∀ e ∈ w.log, Timely e) ↔ Run (only InTime Step) (.start probes restartEnabled) h w := by
  constructor
  · intro hlog
    induction hr with
    | start => exact .start
    | snoc hr hstep ih =>
      obtain ⟨holder, hin⟩ := ((proto_run hr).timely_iff hstep).mp hlog
      exact (ih holder).snoc ⟨hin, hstep⟩
  · intro hin
    have hinv := hin.invariant (I := fun _ w => Proto w ∧ AllTimely w.log)
      ⟨proto_start probes restartEnabled, nofun⟩
      fun _ _ _ _ ⟨hproto, hlog⟩ ⟨hok, hstep⟩ =>
        ⟨hproto.step hstep, (hproto.timely_iff hstep).mpr ⟨hlog, hok⟩⟩
    exact hinv.2

/-- A request that is answered late, before the next tick: the node is restarted
anew. -/
def answeredLate : List Event :=
  overdue ++ [.response ⟨1, "a", .deactivate, 33000000000⟩ true 40000000000 true,
    .tick 41000000000 fun _ => {}]

theorem timely_iff_inTime_answeredLate :
    ∃ w, Run (only InTime Step) (.start [⟨"a", 1, false⟩] true) answeredLate.reverse w ∧
      w.restarts = 2 ∧ ∀ e ∈ w.log, Timely e := by
  obtain ⟨w, hr, hw⟩ := Run.of_exec_any (f := restrict InTime World.handle)
    (restrict_only InTime fun _ _ _ => step_iff_handle.mpr) (.start [⟨"a", 1, false⟩] true)
    answeredLate (fun w => w.restarts = 2) (by decide +kernel)
  have hsteps : Run Step (.start [⟨"a", 1, false⟩] true) answeredLate.reverse w :=
    hr.invariant (I := fun h w => Run Step (.start [⟨"a", 1, false⟩] true) h w) .start
      fun _ _ _ _ hrun hstep => hrun.snoc hstep.2
  exact ⟨w, hr, of_decide_eq_true hw, (timely_iff_inTime _ _ _ w hsteps).mpr hr⟩

/-- Node "a" stops and its request is never answered; node "b" stops after half a
minute. The time of the `n`-th tick is ten `n` seconds. -/
def neverAnswered : List Event :=
  let tick (n : Int) : Event := .tick (n * 10000000000) fun _ => {}
  [.heartbeat "a", .heartbeat "b", tick 1, .heartbeat "b", tick 2, .heartbeat "b", tick 3,
    .heartbeat "b", tick 4, .heartbeat "b", tick 5, tick 6, tick 7]

/-- Ten seconds after the deadline, node "b" is not restarted. -/
theorem not_timely_neverAnswered :
    ¬ ∀ (probes : List ProbeConfig) (restartEnabled : Bool) (h : List Event) (w : World),
      Run Step (.start probes restartEnabled) h w → ∀ e ∈ w.log, Timely e := by
  intro hall
  obtain ⟨w, hr, hw⟩ := run_of_handle
    (.start [⟨"a", 15, false⟩, ⟨"b", 15, false⟩] true) neverAnswered
    (fun w => .skipped "b" 70000000000 (some 60000000000) ∈ w.log) (by decide +kernel)
  have hlate : (70000000000 : Int) ≤ 60000000000 := hall _ _ _ w hr _ (of_decide_eq_true hw)
  exact absurd hlate (by decide)

end AmrFramework.Watchdog
