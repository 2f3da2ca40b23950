import AmrFramework.HealthMonitor

/-!
# The budget of restarts

A node is granted three restarts between two "OK", and the next error is fatal.
`should_recover` counts an attempt when it grants it, and `begin_restart` may
still skip the restart: another one is in progress, the node's own last one is,
or the node has no client. What is granted is begun or skipped, so a node that is
reported "FATAL" was really restarted three times exactly when nothing was
skipped for it.
-/

namespace AmrFramework.Watchdog

open Runs

/-- The restarts of a node since it was last reported "OK": granted by the budget, begun, and
skipped. -/
structure Tally where
  granted : Nat := 0
  begun : Nat := 0
  skipped : Nat := 0
  deriving DecidableEq

/-- The log is newest first. -/
def tally (name : String) : List Rec → Tally
  | [] => {}
  | .reported st :: log =>
    if st.nodeName = name ∧ st.status = "OK" then {} else tally name log
  | .granted node :: log =>
    if node = name then { tally name log with granted := (tally name log).granted + 1 }
    else tally name log
  | .begun node :: log =>
    if node = name then { tally name log with begun := (tally name log).begun + 1 }
    else tally name log
  | .skipped node _ _ :: log =>
    if node = name then { tally name log with skipped := (tally name log).skipped + 1 }
    else tally name log
  | .sent _ :: log => tally name log
  | .answered _ _ :: log => tally name log

/-- A node reported "FATAL" was granted its restarts. -/
def GivenUp : Rec → List Rec → Prop
  | .reported st, older => st.status = "FATAL" →
    (tally st.nodeName older).begun + (tally st.nodeName older).skipped = kMaxRetries
  | _, _ => True

/-- The attempts counted are the restarts granted, each begun or skipped but the
one that `begin_restart` is still `owed`. -/
structure Balanced (recovery : String → Nat) (log : List Rec) (owed : Option String) : Prop where
  attempts : ∀ name, recovery name = (tally name log).granted
  spent : ∀ name, (tally name log).granted =
    (tally name log).begun + (tally name log).skipped + if owed = some name then 1 else 0
  limit : ∀ name, recovery name ≤ kMaxRetries
  fatal : Always GivenUp log

variable {w : World} {recovery : String → Nat} {log : List Rec} {name : String}

/-! ## One record

The log and the counters are balanced record by record. Between a grant and what `begin_restart`
makes of it one restart is owed, and never more than one. -/

/-- A record that is about no restart. -/
theorem Balanced.same {owed : Option String} (h : Balanced recovery log owed) {e : Rec}
    (htally : ∀ name, tally name (e :: log) = tally name log) (hfatal : GivenUp e log) :
    Balanced recovery (e :: log) owed := by
  refine ⟨fun name => ?_, fun name => ?_, h.limit, hfatal, h.fatal⟩
  · rw [htally]
    exact h.attempts name
  · rw [htally]
    exact h.spent name

theorem Balanced.sent {owed : Option String} (h : Balanced recovery log owed) (r : Request) :
    Balanced recovery (.sent r :: log) owed := h.same (fun _ => rfl) trivial

theorem Balanced.answered {owed : Option String} (h : Balanced recovery log owed) (r : Request)
    (success : Bool) : Balanced recovery (.answered r success :: log) owed :=
  h.same (fun _ => rfl) trivial

/-- An attempt is granted and counted. -/
theorem Balanced.granted (h : Balanced recovery log none) (hleft : recovery name < kMaxRetries) :
    Balanced (Function.update recovery name (recovery name + 1)) (.granted name :: log)
      (some name) := by
  refine ⟨fun other => ?_, fun other => ?_, fun other => ?_, trivial, h.fatal⟩
  · have hattempts := h.attempts other
    rw [Function.update_apply, tally]
    by_cases hother : other = name
    · obtain rfl := hother
      rw [if_pos rfl, if_pos rfl, hattempts]
    · rw [if_neg hother, if_neg (Ne.symm hother), hattempts]
  · have hspent := h.spent other
    rw [if_neg (Option.some_ne_none other).symm] at hspent
    rw [tally]
    by_cases hother : name = other
    · obtain rfl := hother
      rw [if_pos rfl, if_pos rfl, hspent]
    · rw [if_neg hother, if_neg fun heq => hother (Option.some.inj heq), hspent]
  · rw [Function.update_apply]
    split
    · exact hleft
    · exact h.limit other

/-- A record that settles the restart owed. -/
theorem Balanced.settled (h : Balanced recovery log (some name)) {e : Rec}
    (hgranted : ∀ other, (tally other (e :: log)).granted = (tally other log).granted)
    (hname : (tally name (e :: log)).begun + (tally name (e :: log)).skipped =
      (tally name log).begun + (tally name log).skipped + 1)
    (hother : ∀ other, name ≠ other → tally other (e :: log) = tally other log)
    (hfatal : GivenUp e log) : Balanced recovery (e :: log) none := by
  refine ⟨fun other => ?_, fun other => ?_, h.limit, hfatal, h.fatal⟩
  · rw [hgranted]
    exact h.attempts other
  · have hspent := h.spent other
    rw [hgranted, hspent, if_neg (Option.some_ne_none other).symm]
    by_cases heq : name = other
    · obtain rfl := heq
      rw [hname, if_pos rfl]
    · rw [hother other heq, if_neg fun hsome => heq (Option.some.inj hsome)]

theorem Balanced.begun (h : Balanced recovery log (some name)) :
    Balanced recovery (.begun name :: log) none := by
  refine h.settled (fun other => ?_) ?_ (fun other hne => if_neg hne) trivial
  · rw [tally]
    split <;> rfl
  · rw [tally, if_pos rfl]
    exact Nat.add_right_comm ..

theorem Balanced.skipped (h : Balanced recovery log (some name)) (tick : Int)
    (deadline : Option Int) : Balanced recovery (.skipped name tick deadline :: log) none := by
  refine h.settled (fun other => ?_) ?_ (fun other hne => if_neg hne) trivial
  · rw [tally]
    split <;> rfl
  · rw [tally, if_pos rfl]
    exact (Nat.add_assoc ..).symm

/-- A status other than "OK" is reported; "FATAL" when no attempt is left. -/
theorem Balanced.reported (h : Balanced recovery log none) {st : HealthStatus}
    (hok : st.status ≠ "OK") (hfatal : st.status = "FATAL" → kMaxRetries ≤ recovery st.nodeName) :
    Balanced recovery (.reported st :: log) none := by
  refine h.same (fun name => if_neg fun hst => hok hst.2) fun hst => ?_
  have hspent := h.spent st.nodeName
  rw [← h.attempts, if_neg (Option.some_ne_none _).symm] at hspent
  have hlimit := h.limit st.nodeName
  have hnone := hfatal hst
  omega

/-- The attempts of a node that has recovered are reset. -/
theorem Balanced.recovered (h : Balanced recovery log none) {st : HealthStatus}
    (hst : st.status = "OK") :
    Balanced (Function.update recovery st.nodeName 0) (.reported st :: log) none := by
  have hnot : st.status ≠ "FATAL" := by
    rw [hst]
    decide
  refine ⟨fun name => ?_, fun name => ?_, fun name => ?_, fun heq => absurd heq hnot, h.fatal⟩
  · rw [Function.update_apply, tally]
    by_cases hname : name = st.nodeName
    · rw [if_pos hname, if_pos ⟨hname.symm, hst⟩]
    · rw [if_neg hname, if_neg fun hsame => hname hsame.1.symm]
      exact h.attempts name
  · rw [tally]
    split
    · rfl
    · exact h.spent name
  · rw [Function.update_apply]
    split
    · exact Nat.zero_le _
    · exact h.limit name

/-! ## One callback

A tick is a fold of rounds, each of which leaves nothing owed; a response grants nothing. -/

/-- Between two callbacks no restart is owed. -/
def World.Balanced (w : World) : Prop := Watchdog.Balanced w.node.monitor.recovery w.log none

theorem World.Balanced.sendNextTransition (h : w.Balanced) (now : Int) (ready : Bool) :
    (w.sendNextTransition now ready).Balanced := by
  obtain heq | ⟨t, -, heq⟩ := sendNextTransition_cases w now ready <;> rw [heq]
  · exact h
  · exact h.sent _

theorem Balanced.beginRestart (h : Balanced w.node.monitor.recovery w.log (some name))
    (tick : Int) (env : RestartEnv) : (w.beginRestart name tick env).Balanced := by
  obtain ⟨-, heq⟩ | ⟨-, heq⟩ | ⟨-, heq⟩ := beginRestart_cases w name tick env <;> rw [heq]
  · exact h.skipped tick _
  · exact h.skipped tick none
  · apply World.Balanced.sendNextTransition
    exact h.begun

theorem NodeStatus.toString_eq_ok {s : NodeStatus} (h : s.toString = "OK") : s = .ok := by
  cases s <;> first | rfl | exact absurd h (by decide)

theorem NodeStatus.toString_eq_fatal {s : NodeStatus} (h : s.toString = "FATAL") : s = .fatal := by
  cases s <;> first | rfl | exact absurd h (by decide)

/-- One of three ends: a restart is granted, then begun or skipped; the node has recovered and
its attempts are reset; or its status is reported only. -/
theorem World.Balanced.checkProbe (h : w.Balanced) (tick : Int) (env : String → RestartEnv)
    (cfg : ProbeConfig) : (w.checkProbe tick env cfg).Balanced := by
  obtain ⟨-, herr, st, -, hst, heq⟩ | ⟨-, st, hname, hst, heq⟩ | ⟨-, hnot, st, hname, hst, heq⟩ :=
    checkProbe_cases w tick env cfg <;> rw [heq]
  · have hleft := (escalatedStatus_eq_error.mp herr).2
    have hbegun := Balanced.beginRestart (w := (w.counted cfg.node).push (.granted cfg.node))
      (h.granted hleft) tick (env cfg.node)
    refine hbegun.reported ?_ fun hfatal => ?_
    · rw [hst]
      decide
    · rw [hst] at hfatal
      exact absurd hfatal (by decide)
  · rw [← hname]
    exact h.recovered hst
  · refine h.reported (fun hok => ?_) fun hfatal => ?_
    · exact hnot (NodeStatus.toString_eq_ok (hst.symm.trans hok))
    · have hgone := NodeStatus.toString_eq_fatal (hst.symm.trans hfatal)
      rw [hname]
      exact (escalatedStatus_eq_fatal.mp hgone).2

theorem age_recovery (w : World) (tick : Int) :
    (w.age tick).node.monitor.recovery = w.node.monitor.recovery := by
  change (if _ then _ else _ : MonitoringService).recovery = _
  split <;> rfl

theorem World.Balanced.checkHealth (h : w.Balanced) (tick : Int) (env : String → RestartEnv) :
    (w.checkHealth tick env).Balanced := by
  refine checkHealth_invariant (fun w hbalanced => ?_) (fun w cfg hbalanced => ?_) h
  · rw [World.Balanced, age_recovery]
    exact hbalanced
  · exact hbalanced.checkProbe tick env cfg

theorem heartbeatReceived_recovery (m : MonitoringService) (name : String) (ageS : ℚ) :
    (m.heartbeatReceived name ageS).recovery = m.recovery := by
  rw [MonitoringService.heartbeatReceived]
  split <;> rfl

theorem World.Balanced.step {w' : World} {e : Event} (h : w.Balanced) (hstep : Step w e w') :
    w'.Balanced := by
  cases hstep with
  | heartbeat name =>
    rw [World.Balanced, heartbeatReceived_recovery]
    exact h
  | tick now env => exact h.checkHealth now env
  | response hr success now ready =>
    rw [World.handleTransitionResponse]
    split
    · exact h.answered _ _
    · apply World.Balanced.sendNextTransition
      exact h.answered _ _

theorem registerNodes_recovery (probes : List ProbeConfig) (m : MonitoringService) :
    (probes.foldl (fun m cfg => m.registerNode cfg.node cfg.timeoutS) m).recovery = m.recovery := by
  induction probes generalizing m with
  | nil => rfl
  | cons cfg probes ih => exact ih _

/-- In every run nothing is owed between two callbacks. -/
theorem balanced_run {probes : List ProbeConfig} {restartEnabled : Bool} {h : List Event}
    (hr : Run Step (.start probes restartEnabled) h w) : w.Balanced := by
  refine hr.invariant (I := fun _ w => w.Balanced) ?_
    fun _ _ _ _ hbalanced hstep => hbalanced.step hstep
  have hzero : (World.start probes restartEnabled).node.monitor.recovery = fun _ => 0 :=
    registerNodes_recovery probes {}
  rw [World.Balanced, hzero]
  exact ⟨fun _ => rfl, fun _ => rfl, fun _ => Nat.zero_le _, trivial⟩

/-- **The budget.** In every run, a node that is reported "FATAL" was restarted
three times since it was last "OK" exactly when no restart granted to it since
then was skipped. -/
theorem fatal_iff (probes : List ProbeConfig) (restartEnabled : Bool) (h : List Event)
    (w : World) (hr : Run Step (.start probes restartEnabled) h w) (newer older : List Rec)
    (st : HealthStatus) (hlog : w.log = newer ++ .reported st :: older)
    (hst : st.status = "FATAL") :
    kMaxRetries ≤ (tally st.nodeName older).begun ↔ (tally st.nodeName older).skipped = 0 := by
  have hfatal := (balanced_run hr).fatal
  rw [hlog] at hfatal
  have hspent := hfatal.of_append.1 hst
  omega

/-- Every restart of node "a" is rejected at its first transition. -/
def rejected : List Event :=
  let tick (n : Int) : Event := .tick (n * 1000000000) fun _ => {}
  let reject (k : Nat) (deadline : Int) : Event :=
    .response ⟨k, "a", .deactivate, deadline * 1000000000⟩ false 0 true
  [.heartbeat "a", tick 1, tick 3, reject 1 33, tick 4, reject 2 34, tick 5, reject 3 35, tick 6]

theorem fatal_iff_rejected :
    ∃ w st older, Run Step (.start [⟨"a", 1, false⟩] true) rejected.reverse w ∧
      w.log = .reported st :: older ∧ st.status = "FATAL" ∧
      kMaxRetries ≤ (tally st.nodeName older).begun := by
  obtain ⟨w, hr, hw⟩ := run_of_handle (.start [⟨"a", 1, false⟩] true) rejected
    (fun w => w.log.head? = some (.reported ⟨"a", "FATAL", 5, 1⟩) ∧
      (tally "a" w.log.tail).skipped = 0) (by decide +kernel)
  obtain ⟨hhead, hskipped⟩ := of_decide_eq_true hw
  obtain ⟨older, holder⟩ := List.head?_eq_some_iff.mp hhead
  rw [holder] at hskipped
  exact ⟨w, _, older, hr, holder, rfl,
    (fatal_iff _ _ _ w hr [] older ⟨"a", "FATAL", 5, 1⟩ holder rfl).mpr hskipped⟩

/-- Nodes "a" and "b" stop together, and the first request to "a" is not answered
yet. -/
def together : List Event :=
  let tick (n : Int) : Event := .tick (n * 1000000000) fun _ => {}
  [.heartbeat "a", .heartbeat "b", tick 1, tick 3, tick 4, tick 5, tick 6]

/-- Node "b" is reported "FATAL" and was never restarted. -/
theorem not_begun_together :
    ¬ ∀ (probes : List ProbeConfig) (restartEnabled : Bool) (h : List Event) (w : World),
      Run Step (.start probes restartEnabled) h w →
      ∀ newer older st, w.log = newer ++ .reported st :: older → st.status = "FATAL" →
        kMaxRetries ≤ (tally st.nodeName older).begun := by
  intro hall
  obtain ⟨w, hr, hw⟩ := run_of_handle (.start [⟨"a", 1, false⟩, ⟨"b", 1, false⟩] true) together
    (fun w => w.log.head? = some (.reported ⟨"b", "FATAL", 5, 1⟩) ∧
      (tally "b" w.log.tail).begun = 0) (by decide +kernel)
  obtain ⟨hhead, hbegun⟩ := of_decide_eq_true hw
  obtain ⟨older, holder⟩ := List.head?_eq_some_iff.mp hhead
  rw [holder] at hbegun
  have hnone : (tally "b" older).begun = 0 := hbegun
  have hthree : 3 ≤ (tally "b" older).begun := hall _ _ _ w hr [] older _ holder rfl
  omega

end AmrFramework.Watchdog
