import AmrFramework.GuardLastWord
import AmrFramework.SmootherLimits

/-!
# The envelope of the motor controller

What is published went through pursuit, avoidance, guard, tracking error and
smoother. Over whole runs, with messages in between at any point of a tick:

* the speed is forward and at most that of the pursuit, the turn rate at most
  that of the avoidance, and a robot without a goal stands (`Enveloped`);
* while the guard stops, the way that is still commanded is paid for by the
  square of the speed (`Braking`).
-/

namespace AmrFramework.Execution

open Runs

universe u

variable {K : Type u} [Field K] [CMath K] [LinearOrder K] [FloorRing K] [IsStrictOrderedRing K]
variable {vfhEnabled : Bool} {guardStopDist : K} {guardMinValidEchoes : Int}
variable {h : List (MotorEvent K)} {s s' : MotorState K} {exec : ActiveGoal K} {i : ControlInput K}
variable {node : MotorNode K}

/-! ## The speeds of a tick

A tick computes a command in stages: pursuit, avoidance, guard, tracking error and smoothing.
Each stage is bounded here on its own, in that order. -/

/-- The bound on the turn rate. -/
def turnLimit (vfhEnabled : Bool) : K :=
  if vfhEnabled then ({} : VfhParams K).maxSteering else ({} : PursuitParams K).maxAngular

omit [CMath K] [FloorRing K] in
theorem maxAngular_le_turnLimit (vfhEnabled : Bool) :
    ({} : PursuitParams K).maxAngular ≤ turnLimit vfhEnabled := by
  cases vfhEnabled <;> norm_num [turnLimit]

/-- The avoidance turns within its own limit. -/
theorem VfhParams.abs_steering_le {p : VfhParams K} (hp : 0 ≤ p.maxSteering)
    (lastGapCenter : Option K) (scan : ScanData K) (goalAngle cmdV : K) :
    |(p.steer lastGapCenter scan goalAngle cmdV).1.steering| ≤ p.maxSteering := by
  have hle : -p.maxSteering ≤ p.maxSteering := (neg_nonpos.mpr hp).trans hp
  have hzero : |(0 : K)| ≤ p.maxSteering := abs_zero.trans_le hp
  simp only [VfhParams.steer]
  split_ifs
  · exact hzero
  · split
    · exact hzero
    · exact abs_le.mpr ⟨le_clamp hle, clamp_le hle⟩
  · exact hzero

omit [FloorRing K] in
/-- The pursuit drives at its limit at most. -/
theorem tracked_le (node : MotorNode K) (exec : ActiveGoal K) :
    (tracked node exec).1.linear ≤ ({} : PursuitParams K).maxLinear := by
  have hmax := (PursuitParams.positive_default (K := K)).maxLinear.le
  rcases hgoal : exec.path.getLast? with _ | goal
  · simpa only [tracked, PursuitParams.track, hgoal, Twist2D.zero] using hmax
  · rcases PursuitParams.positive_default.track_cases node.progress hgoal node.currentPose with
      ⟨-, htrack⟩ | ⟨-, -, hle, -⟩
    · rw [tracked, htrack]
      exact hmax
    · exact hle

theorem avoided_le (harrived : ¬ Arrived node exec) :
    (avoided i node exec).linear ≤ ({} : PursuitParams K).maxLinear := by
  have hpos := (tracked_of_not_arrived harrived).1
  refine le_trans ?_ (tracked_le node exec)
  simp only [avoided]
  split_ifs
  · exact mul_le_of_le_one_right hpos.le (by norm_num)
  · exact le_rfl

theorem abs_avoided_le (i : ControlInput K) (node : MotorNode K) (exec : ActiveGoal K) :
    |(avoided i node exec).angular| ≤ turnLimit node.vfhEnabled := by
  simp only [avoided]
  split_ifs with hsteers
  · rw [turnLimit, if_pos hsteers.1]
    exact VfhParams.abs_steering_le (by norm_num) _ _ _ _
  · exact (PursuitParams.positive_default.abs_angular_le _ _ _).trans (maxAngular_le_turnLimit _)

theorem abs_commanded_le (i : ControlInput K) (node : MotorNode K) (exec : ActiveGoal K) :
    |(commanded i node exec).angular| ≤ turnLimit node.vfhEnabled := by
  have hle := abs_avoided_le i node exec
  simp only [commanded, TrackErrorState.limit]
  split
  · exact (abs_zero.trans_le (abs_nonneg _)).trans hle
  · exact hle
  · exact hle

/-! ## The envelope

The invariant says what was published last, since that is where the smoother starts from. One
tick publishes zero, or something between the last twist and the commanded one, and both are
inside. -/

/-- A twist in the envelope: forward, no faster than the pursuit drives, and turning no faster
than `turn`. -/
structure WithinLimits (turn : K) (twist : Twist2D K) : Prop where
  forward : 0 ≤ twist.linear
  linear : twist.linear ≤ ({} : PursuitParams K).maxLinear
  angular : |twist.angular| ≤ turn

omit [CMath K] [FloorRing K] in
theorem WithinLimits.zero {turn : K} (hturn : 0 ≤ turn) : WithinLimits turn (.zero : Twist2D K) :=
  ⟨le_rfl, (PursuitParams.positive_default (K := K)).maxLinear.le, abs_zero.trans_le hturn⟩

omit [CMath K] [FloorRing K] in
/-- The smoother stays between two twists of the envelope. -/
theorem WithinLimits.smooth {turn : K} {last desired : Twist2D K} (hlast : WithinLimits turn last)
    (hdesired : WithinLimits turn desired) :
    WithinLimits turn (({} : SmootherParams K).smooth desired last 0.05) := by
  obtain ⟨-, hlin, hang⟩ :=
    SmootherParams.positive_default.smoothed last (t := ⟨desired, 0.05⟩) (by norm_num)
  obtain ⟨hlo, hhi⟩ := abs_le.mp hlast.angular
  obtain ⟨hlo', hhi'⟩ := abs_le.mp hdesired.angular
  exact
    { forward := (le_min hlast.forward hdesired.forward).trans hlin.1
      linear := hlin.2.trans (max_le hlast.linear hdesired.linear)
      angular := abs_le.mpr ⟨(le_min hlo hlo').trans hang.1, hang.2.trans (max_le hhi hhi')⟩ }

/-- The invariant of the runs: the last command is in the envelope, and it is a stop while there
is no goal. -/
structure Enveloped (vfhEnabled : Bool) (s : MotorState K) : Prop where
  enabled : s.node.vfhEnabled = vfhEnabled
  limits : WithinLimits (turnLimit vfhEnabled) s.node.lastCmd
  idle : s.exec = none → s.node.lastCmd = .zero

/-- One tick stays in the envelope. It ends the goal and publishes zero, or it smooths. -/
theorem Enveloped.tick (he : Enveloped vfhEnabled ⟨node, some exec⟩) (i : ControlInput K) :
    Enveloped vfhEnabled
      ⟨(controlTick i node exec).node, (controlTick i node exec).exec⟩ := by
  have hturn : (0 : K) ≤ turnLimit vfhEnabled := (abs_nonneg _).trans he.limits.angular
  have henabled : (controlTick i node exec).node.vfhEnabled = node.vfhEnabled := by
    simp only [controlTick]
    split_ifs
    · rfl
    · rfl
    · simp only [MotorNode.finish, MotorNode.publishTwist, guarding, avoiding]
      rw [(MotorNode.receive_keeps _ _).2.2.2.1]
      split_ifs <;> exact (MotorNode.receive_keeps _ _).2.2.2.1
    · simp only [MotorNode.proceed]
      split_ifs <;>
        simp only [(MotorNode.receive_keeps _ _).2.2.2.1, MotorNode.publishTwist, guarding,
          avoiding] <;>
        split_ifs <;> exact (MotorNode.receive_keeps _ _).2.2.2.1
  rcases hresult : (controlTick i node exec).result with _ | r
  · obtain ⟨harrived, heq⟩ := controlTick_of_none hresult
    obtain ⟨-, -, hnode, hpublished⟩ := published_of_none hresult
    have hcommanded : WithinLimits (turnLimit vfhEnabled) (commanded i node exec) :=
      { forward := (commanded_mem harrived).1
        linear := ((commanded_mem harrived).2.trans
          (CollisionGuard.clamp_mem (avoided_nonneg harrived) _).2).trans (avoided_le harrived)
        angular := he.enabled ▸ abs_commanded_le i node exec }
    refine ⟨henabled.trans he.enabled, ?_, fun hexec => ?_⟩
    · change WithinLimits _ (controlTick i node exec).node.lastCmd
      rw [hnode, hpublished]
      split_ifs
      · exact .zero hturn
      · exact he.limits.smooth hcommanded
    · rw [heq] at hexec
      cases hexec
  · obtain ⟨-, -, hzero, -⟩ := controlTick_of_some hresult
    refine ⟨henabled.trans he.enabled, ?_, fun _ => hzero⟩
    change WithinLimits _ (controlTick i node exec).node.lastCmd
    rw [hzero]
    exact .zero hturn

/-- By induction over the run: messages and goals publish nothing, so the step is that of a tick. -/
theorem run_enveloped (hr : MotorRun vfhEnabled guardStopDist guardMinValidEchoes h s) :
    Enveloped vfhEnabled s := by
  refine hr.invariant (I := fun _ s => Enveloped vfhEnabled s) ⟨rfl, .zero ?_, fun _ => rfl⟩ ?_
  · refine le_trans ?_ (maxAngular_le_turnLimit vfhEnabled)
    exact (PursuitParams.positive_default (K := K)).maxAngular.le
  intro h s e s' he hstep
  cases e with
  | message m =>
    obtain rfl := Option.some.inj hstep
    obtain ⟨hcmd, -, -, hvfh, -⟩ := s.node.receive_keeps [m]
    exact ⟨hvfh.trans he.enabled, (congrArg (WithinLimits _) hcmd).mpr he.limits,
      fun hexec => hcmd.trans (he.idle hexec)⟩
  | goal target now beforePath =>
    simp only [MotorStep, MotorState.step] at hstep
    split at hstep
    · obtain rfl := Option.some.inj hstep
      obtain ⟨hcmd, -, -, hvfh, -⟩ := MotorNode.receive_keeps
        { s.node with progress := 0, guard := s.node.guard.clearHold now } beforePath
      exact ⟨hvfh.trans he.enabled, (congrArg (WithinLimits _) hcmd).mpr he.limits,
        fun hexec => by cases hexec⟩
    · cases hstep
  | tick i =>
    obtain ⟨exec, hexec, rfl⟩ := Option.map_eq_some_iff.mp hstep
    obtain ⟨node, _⟩ := s
    obtain rfl := hexec
    exact he.tick i

/-- **The envelope**: in every run the published speed is forward and at most half a metre a
second, the turn rate is at most 1.5 with the avoidance and 1.0 without it, and a robot that has
no goal was told to stand. -/
theorem published_enveloped (hr : MotorRun vfhEnabled guardStopDist guardMinValidEchoes h s) :
    (0 ≤ s.node.lastCmd.linear ∧ s.node.lastCmd.linear ≤ 0.5) ∧
      |s.node.lastCmd.angular| ≤ (if vfhEnabled then 1.5 else 1.0) ∧
      (s.exec = none → s.node.lastCmd = .zero) := by
  have hinv := run_enveloped hr
  refine ⟨⟨hinv.limits.forward, hinv.limits.linear⟩, hinv.limits.angular.trans_eq ?_, hinv.idle⟩
  cases vfhEnabled <;> rfl

/-- The robot at five centimetres a second. -/
theorem published_enveloped_cruise :
    (cruise 0.05).lastCmd.linear ≤ 0.5 ∧ |(cruise 0.05).lastCmd.angular| ≤ 1.0 := by
  obtain ⟨h, hr⟩ := run_cruise
  obtain ⟨⟨-, hle⟩, hturn, -⟩ := published_enveloped hr
  exact ⟨hle, hturn⟩

/-! ## Braking

What a robot still has to go is paid for by the square of its speed. A tick in which the guard
stops commands no forward speed, so the smoother brakes by its limit, or the robot stands at
once; either way the speed loses at least what the tick's way costs. -/

/-- A run of the node with the way that was commanded in it, in metres: the sum over the ticks of
the speed published, times the period. -/
structure Driven (K : Type u) [Field K] : Type u where
  state : MotorState K
  way : K

/-- The way that an event commands: a tick holds for its period. -/
def MotorEvent.way (e : MotorEvent K) (s : MotorState K) : K :=
  match e with
  | .tick _ => s.node.lastCmd.linear * 0.05
  | .message _ | .goal _ _ _ => 0

/-- A step of the node, and the way of it. -/
def DriveStep (a : Driven K) (e : MotorEvent K) (b : Driven K) : Prop :=
  MotorStep a.state e b.state ∧ b.way = a.way + e.way b.state

/-- If the event is a tick that does not end the goal, the guard stops in it. -/
def GuardStops (a : Driven K) (e : MotorEvent K) : Prop :=
  match e with
  | .tick i => ∀ exec, a.state.exec = some exec →
      (controlTick i a.state.node exec).result = none →
        (controlTick i a.state.node exec).node.guard.lastStop = true
  | .message _ | .goal _ _ _ => True

omit [CMath K] [FloorRing K] in
/-- A braking tick is paid for by the square of the speed. With `v` the speed before, `0.04` is
what one period takes off at the limit of `0.8`, and `1.6` is twice that limit. -/
theorem brake_pays (v : K) :
    max 0 (v - 0.04) * 0.05 ≤ v ^ 2 / 1.6 - max 0 (v - 0.04) ^ 2 / 1.6 := by
  obtain hle | hle := le_total (v - 0.04) 0
  · rw [max_eq_left hle]
    have hsq := sq_nonneg v
    norm_num
    linarith
  · rw [max_eq_right hle]
    norm_num at hle ⊢
    nlinarith

/-- A tick in which the guard stops, or that ends the goal, brakes: what is published is no
faster than the last speed less what one period takes off. -/
theorem published_of_stop {i : ControlInput K} (hlast : 0 ≤ node.lastCmd.linear)
    (hstops : (controlTick i node exec).result = none →
      (controlTick i node exec).node.guard.lastStop = true) :
    (controlTick i node exec).node.lastCmd.linear = 0 ∨
      (controlTick i node exec).node.lastCmd.linear = max 0 (node.lastCmd.linear - 0.04) := by
  rcases hresult : (controlTick i node exec).result with _ | r
  · obtain ⟨-, hstop, hnode, hpublished⟩ := published_of_none hresult
    obtain ⟨harrived, -⟩ := controlTick_of_none hresult
    have hzero : (guarded i node exec).1 = 0 := by
      have hstopped := hstops hresult
      rw [hstop] at hstopped
      exact CollisionGuard.clamp_of_stops (of_decide_eq_true hstopped)
    have hcommanded : (commanded i node exec).linear = 0 := by
      obtain ⟨hnonneg, hle⟩ := commanded_mem (i := i) harrived
      exact le_antisymm (hle.trans_eq hzero) hnonneg
    rw [hnode, hpublished]
    split_ifs
    · exact .inl rfl
    · right
      rw [SmootherParams.smooth_linear (by norm_num) (by norm_num), hcommanded,
        if_neg (not_lt.mpr hlast)]
      norm_num
  · obtain ⟨-, -, hzero, -⟩ := controlTick_of_some hresult
    exact .inl (congrArg Twist2D.linear hzero)

/-- The way so far and what the speed may still cost are no more than the speed at the start was
worth. -/
structure Braking (v : K) (b : Driven K) : Prop where
  forward : 0 ≤ b.state.node.lastCmd.linear
  paid : b.way + b.state.node.lastCmd.linear ^ 2 / 1.6 ≤ v ^ 2 / 1.6

/-- Ticks are paid for by `brake_pays`; messages and new goals command no way and leave the
speed. -/
theorem Braking.step {v : K} {a b : Driven K} {e : MotorEvent K} (hb : Braking v a)
    (hstops : GuardStops a e) (hstep : DriveStep a e b) : Braking v b := by
  obtain ⟨hnode, hway⟩ := hstep
  have hkeeps : b.state.node.lastCmd = a.state.node.lastCmd → e.way b.state = 0 → Braking v b := by
    intro hcmd hzero
    rw [hzero, add_zero] at hway
    exact ⟨hcmd ▸ hb.forward, by rw [hway, hcmd]; exact hb.paid⟩
  cases e with
  | message m =>
    refine hkeeps ?_ rfl
    rw [← Option.some.inj hnode]
    exact (a.state.node.receive_keeps [m]).1
  | goal target now beforePath =>
    refine hkeeps ?_ rfl
    simp only [MotorStep, MotorState.step] at hnode
    split at hnode
    · rw [← Option.some.inj hnode]
      exact (MotorNode.receive_keeps _ _).1
    · cases hnode
  | tick i =>
    obtain ⟨exec, hexec, hout⟩ := Option.map_eq_some_iff.mp hnode
    have hbrakes := published_of_stop hb.forward (hstops exec hexec)
    have hpays := brake_pays a.state.node.lastCmd.linear
    have hpaid := hb.paid
    have hsq := sq_nonneg a.state.node.lastCmd.linear
    obtain ⟨_, way⟩ := b
    obtain rfl := hout
    have hway : way = a.way + (controlTick i a.state.node exec).node.lastCmd.linear * 0.05 := hway
    -- stopped at once, or braked
    obtain hzero | hslower := hbrakes
    · refine ⟨hzero.ge, ?_⟩
      simp only [hway, hzero]
      norm_num at hpaid ⊢
      linarith
    · refine ⟨hslower ▸ le_max_left _ _, ?_⟩
      simp only [hway, hslower]
      linarith

theorem Braking.start (hr : MotorRun vfhEnabled guardStopDist guardMinValidEchoes h s) :
    Braking s.node.lastCmd.linear ⟨s, 0⟩ :=
  ⟨(run_enveloped hr).limits.forward, (zero_add _).le⟩

/-- The way that is paid for by the speed that a run leads to. -/
theorem Braking.way_le (hr : MotorRun vfhEnabled guardStopDist guardMinValidEchoes h s)
    {b : Driven K} (hb : Braking s.node.lastCmd.linear b) :
    b.way ≤ s.node.lastCmd.linear ^ 2 / (2 * 0.8) ∧ b.way < 0.16 := by
  have hleft : 0 ≤ b.state.node.lastCmd.linear ^ 2 := sq_nonneg _
  have hpaid := hb.paid
  have hlimits := (run_enveloped hr).limits
  have hsq : s.node.lastCmd.linear ^ 2 ≤ 0.5 ^ 2 :=
    pow_le_pow_left₀ hlimits.forward hlimits.linear 2
  norm_num at hpaid hsq ⊢
  exact ⟨by linarith, by linarith⟩

/-- **The way after the guard stops.** From any state that a run leads to, while the guard stops
in every tick that does not end the goal, whatever messages arrive and goals begin: the way that
is still commanded is at most the square of the speed over twice the deceleration, and so less
than sixteen centimetres. -/
theorem way_after_stop (hr : MotorRun vfhEnabled guardStopDist guardMinValidEchoes h s)
    {stopping : List (MotorEvent K)} {b : Driven K}
    (hstop : Run (only GuardStops DriveStep) ⟨s, 0⟩ stopping b) :
    b.way ≤ s.node.lastCmd.linear ^ 2 / (2 * 0.8) ∧ b.way < 0.16 := by
  have hinv : Braking s.node.lastCmd.linear b :=
    hstop.invariant (I := fun _ b => Braking s.node.lastCmd.linear b) (.start hr)
      fun _ _ _ _ hb ⟨hstops, hstep⟩ => hb.step hstops hstep
  exact Braking.way_le hr hinv

/-- An echo within the stop distance. -/
noncomputable def wall : ScanData ℝ where
  ranges := [some 0.2]
  angleMin := 0
  angleIncrement := 0

theorem stops_wall (a : ℝ) : ((cruise a).onMessage (.scan wall 0)).guard.Stops 0 := by
  have hbeams : wall.beams = [(0.2, 0)] := by
    simp [ScanData.beams, wall]
  have hnearest : ((cruise a).onMessage (.scan wall 0)).guard.nearestInFov = some 0.2 := by
    simp only [CollisionGuard.nearestInFov, MotorNode.onMessage, cruise, CollisionGuard.setScan,
      hbeams]
    norm_num [GuardParams.Echo, List.filter_cons]
  refine ⟨0, rfl, .inr (.inr (.inl ⟨0.2, hnearest, ?_⟩))⟩
  norm_num [MotorNode.onMessage, cruise, CollisionGuard.setScan]

/-- One tick in front of the wall. -/
theorem controlTick_wall (a : ℝ) :
    (controlTick (quiet 0) ((cruise a).onMessage (.scan wall 0)) lineAhead).node.guard.lastStop =
      true := by
  have hguard : ((cruise a).onMessage (.scan wall 0)).guard.clamp 0.5 0 = (0, _) :=
    Prod.ext (CollisionGuard.clamp_of_stops (stops_wall a)) rfl
  have hblocked : (((cruise a).onMessage (.scan wall 0)).guard.clamp 0.5 0).2.blockedFor 0 = 0 := by
    have hok : (((cruise a).onMessage (.scan wall 0)).guard.clamp 0.5 0).2.lastOkTime = some 0 :=
      ite_self _
    rw [CollisionGuard.blockedFor, hok]
    rfl
  rw [controlTick_quiet rfl rfl (tracked_lineAhead rfl rfl) (by norm_num) hguard
    (by rw [hblocked]; decide)]
  exact decide_eq_true (stops_wall a)

/-- A wall is seen, and the next tick stops. -/
theorem way_after_stop_wall :
    ∃ b : Driven ℝ, Run (only GuardStops DriveStep) ⟨⟨cruise 0.05, some lineAhead⟩, 0⟩
        [.tick (quiet 0), .message (.scan wall 0)] b ∧ b.way ≤ 0.05 ^ 2 / (2 * 0.8) := by
  obtain ⟨h, hr⟩ := run_cruise
  have hscan : only GuardStops DriveStep ⟨⟨cruise 0.05, some lineAhead⟩, 0⟩
      (.message (.scan wall 0))
      ⟨⟨(cruise 0.05).onMessage (.scan wall 0), some lineAhead⟩, 0 + 0⟩ :=
    ⟨trivial, rfl, rfl⟩
  have htick : ∀ way : ℝ, ∃ b, only GuardStops DriveStep
      ⟨⟨(cruise 0.05).onMessage (.scan wall 0), some lineAhead⟩, way⟩ (.tick (quiet 0)) b := by
    intro way
    let out := controlTick (quiet 0) ((cruise 0.05).onMessage (.scan wall 0)) lineAhead
    refine ⟨⟨⟨out.node, out.exec⟩, way + out.node.lastCmd.linear * 0.05⟩, fun exec hexec _ => ?_,
      rfl, rfl⟩
    obtain rfl := Option.some.inj hexec
    exact controlTick_wall 0.05
  obtain ⟨b, hb⟩ := htick (0 + 0)
  have hstop := (Run.start.snoc hscan).snoc hb
  exact ⟨b, hstop, (way_after_stop hr hstop).1⟩

end AmrFramework.Execution
