import AmrFramework.MotorCtrlNode

/-!
# The last word on forward speed

The guard clamps the forward speed in the middle of a tick. What is published
after it went through the smoother, which does not brake harder than its limit.

`guard_last_word_iff` says, for every tick in every run, when the published
speed stays at or below the one that the guard returned.

The guard comes before the smoother, and the smoother knows only what was published last. A robot
at some speed that is told to stop slows down by one step of its limit, and drives on at what is
left.
-/

namespace AmrFramework.Execution

open Runs

universe u

variable {K : Type u} [Field K] [CMath K] [LinearOrder K] [FloorRing K] [IsStrictOrderedRing K]
variable {vfhEnabled : Bool} {guardStopDist : K} {guardMinValidEchoes : Int}
variable {h : List (MotorEvent K)} {s : MotorState K} {exec : ActiveGoal K} {i : ControlInput K}
variable {node : MotorNode K}

/-! ## The speeds of a tick

Behind the guard only the tracking error comes before the smoother, and it scales the speed by a
factor between 0 and 1. So what the smoother is given is at most what the guard returned. -/

/-- The guard is given a speed that is not negative. -/
theorem avoided_nonneg (harrived : ¬ Arrived node exec) : 0 ≤ (avoided i node exec).linear := by
  have hpos := (tracked_of_not_arrived harrived).1
  simp only [avoided]
  split_ifs
  · exact mul_nonneg hpos.le (by norm_num)
  · exact hpos.le

/-- The guard never returns a speed below zero when it is given none. -/
theorem guarded_nonneg (harrived : ¬ Arrived node exec) : 0 ≤ (guarded i node exec).1 :=
  (CollisionGuard.clamp_mem (avoided_nonneg harrived) i.guardNow).1

/-- The tracking error only slows down. -/
theorem commanded_mem (harrived : ¬ Arrived node exec) :
    0 ≤ (commanded i node exec).linear ∧
      (commanded i node exec).linear ≤ (guarded i node exec).1 := by
  have hv := guarded_nonneg (i := i) harrived
  simp only [commanded, TrackErrorState.limit]
  split
  · exact ⟨le_rfl, hv⟩
  · next hwarn =>
    obtain ⟨hpos, hle⟩ := MonitorParams.speedScale_pos {} node.currentPose exec.path
      (by rw [hwarn]; decide)
    exact ⟨mul_nonneg hv hpos.le, mul_le_of_le_one_right hv hle⟩
  · exact ⟨hv, le_rfl⟩

/-! ## The last command over runs

That the robot never drove backwards is an invariant of the runs, and the smoother needs it:
without it the step down from the last speed could be a step up in absolute value. -/

/-- One tick keeps the last command from going backwards: it is zero, or between the last one and
the commanded one. -/
theorem lastCmd_nonneg_tick (hlast : 0 ≤ node.lastCmd.linear) :
    0 ≤ (controlTick i node exec).node.lastCmd.linear := by
  rcases hresult : (controlTick i node exec).result with _ | r
  · obtain ⟨-, -, hnode, hpublished⟩ := published_of_none hresult
    have hcommanded := commanded_mem (i := i) (controlTick_of_none hresult).1
    rw [hnode, hpublished]
    split_ifs
    · exact le_rfl
    · exact SmootherParams.smooth_nonneg (by norm_num) (by norm_num) hcommanded.1 hlast
  · obtain ⟨-, -, hnode, -⟩ := controlTick_of_some hresult
    rw [hnode]
    exact le_rfl

/-- In every run the published speed is forward. -/
theorem run_lastCmd_nonneg (hr : MotorRun vfhEnabled guardStopDist guardMinValidEchoes h s) :
    0 ≤ s.node.lastCmd.linear := by
  refine hr.invariant (I := fun _ s => 0 ≤ s.node.lastCmd.linear) le_rfl ?_
  intro h s e s' hlast hstep
  cases e with
  | message m =>
    obtain rfl := Option.some.inj hstep
    exact ((MotorNode.receive_keeps s.node [m]).1 ▸ hlast :)
  | goal target now beforePath =>
    simp only [MotorStep, MotorState.step] at hstep
    split at hstep
    · obtain rfl := Option.some.inj hstep
      simp only [MotorNode.beginGoal]
      rw [(MotorNode.receive_keeps _ _).1]
      exact hlast
    · cases hstep
  | tick i =>
    obtain ⟨exec, -, rfl⟩ := Option.map_eq_some_iff.mp hstep
    exact lastCmd_nonneg_tick hlast

/-! ## The published speed

The three cases of the theorem are the three ways in which the smoother does not stand between
the guard and the wheels: it is bypassed for the tracking error, or for a twist that is zero, or
it gets down to the commanded speed in one step. -/

/-- **Exactly when the guard has the last word**, in every tick of every run that
does not end the goal: on a tracking error, when the guard stopped a robot that
is not told to turn, and when the last published speed can be braked in one tick
to the one that the guard returned. -/
theorem guard_last_word_iff (hr : MotorRun vfhEnabled guardStopDist guardMinValidEchoes h s)
    (exec : ActiveGoal K) (i : ControlInput K) (v : K)
    (hgoes : (controlTick i s.node exec).result = none)
    (hv : (controlTick i s.node exec).guardV = some v) :
    ((controlTick i s.node exec).published.linear ≤ v ∧
        ((controlTick i s.node exec).node.guard.lastStop = true →
          (controlTick i s.node exec).published.linear = 0)) ↔
      TrackError s.node exec ∨ (v = 0 ∧ (avoided i s.node exec).angular = 0) ∨
        s.node.lastCmd.linear - 0.8 * 0.05 ≤ v := by
  obtain ⟨harrived, -⟩ := controlTick_of_none hgoes
  obtain ⟨hguardV, hstop, -, hpublished⟩ := published_of_none hgoes
  obtain rfl : (guarded i s.node exec).1 = v := Option.some.inj (hguardV.symm.trans hv)
  obtain ⟨hcommanded, hle⟩ := commanded_mem (i := i) harrived
  have hlast := run_lastCmd_nonneg hr
  have hstopped : (controlTick i s.node exec).node.guard.lastStop = true →
      (guarded i s.node exec).1 = 0 := by
    intro h
    rw [hstop] at h
    exact CollisionGuard.clamp_of_stops (of_decide_eq_true h)
  rw [← or_assoc, ← commanded_eq_zero_iff, hpublished]
  split_ifs with hzero
  · exact iff_of_true ⟨guarded_nonneg harrived, fun _ => rfl⟩ (.inl hzero)
  · have hsmooth := SmootherParams.smooth_le_iff {} s.node.lastCmd 0.05 (by norm_num) (by norm_num)
      hle
    have hnonneg : 0 ≤ (({} : SmootherParams K).smooth (commanded i s.node exec) s.node.lastCmd
        0.05).linear :=
      SmootherParams.smooth_nonneg (by norm_num) (by norm_num) hcommanded hlast
    rw [or_iff_right hzero, ← hsmooth]
    constructor
    · rintro ⟨hbound, -⟩
      exact hbound
    · intro hbound
      refine ⟨hbound, fun h => le_antisymm ?_ hnonneg⟩
      exact hbound.trans_eq (hstopped h)

/-! ## An obstacle at close range

A robot that was at five centimetres a second sees an obstacle half a centimetre beyond the stop
distance. The guard lets five millimetres a second through, the smoother one centimetre. -/

/-- The line from the origin to a target straight ahead. -/
def lineAhead : ActiveGoal ℝ where
  target := ⟨3, 0⟩
  received := []
  path := [⟨0, 0⟩, ⟨3, 0⟩]

/-- A robot at the origin that drives along the first axis at the speed `a`,
without avoidance. -/
noncomputable def cruise (a : ℝ) : MotorNode ℝ where
  guard := { params := { stopDist := 0.30, minValidEchoes := 0 }, lastOkTime := some 0 }
  vfhEnabled := false
  lastCmd := ⟨a, 0⟩
  odomValid := true

theorem nearest_lineAhead : nearest 0 lineAhead.path (⟨0, 0, 0⟩ : Pose2D ℝ) = (0, 0) := by
  have hstart : dist2d (⟨0, 0⟩ : Waypoint ℝ) (⟨0, 0, 0⟩ : Pose2D ℝ).position = 0 :=
    dist2d_eq le_rfl (by norm_num [Pose2D.position])
  have hend : dist2d (⟨3, 0⟩ : Waypoint ℝ) (⟨0, 0, 0⟩ : Pose2D ℝ).position = 3 :=
    dist2d_eq (by norm_num) (by norm_num [Pose2D.position])
  norm_num [nearest, lineAhead, searchNearest, hstart, hend, floatMax]

/-- The lookahead waypoint is the target, straight ahead. -/
theorem bearing_lineAhead :
    bearing (({} : PursuitParams ℝ).findLookahead 0 lineAhead.path ⟨3, 0⟩ ⟨0, 0, 0⟩).2
      ⟨0, 0, 0⟩ = 0 := by
  have hlength : dist2d (⟨3, 0⟩ : Waypoint ℝ) ⟨0, 0⟩ = 3 :=
    dist2d_eq (by norm_num) (by norm_num)
  have hlookahead : ({} : PursuitParams ℝ).findLookahead 0 lineAhead.path ⟨3, 0⟩ ⟨0, 0, 0⟩ =
      (1, ⟨3, 0⟩) := by
    simp only [PursuitParams.findLookahead, nearest_lineAhead]
    norm_num [lineAhead, walk, hlength]
  rw [hlookahead]
  exact bearing_ahead rfl rfl (by norm_num)

theorem track_lineAhead :
    ({} : PursuitParams ℝ).track 0 lineAhead.path ⟨0, 0, 0⟩ = (⟨0.5, 0⟩, 0) := by
  have hback : lineAhead.path.getLast? = some ⟨3, 0⟩ := rfl
  have hend : dist2d (⟨3, 0⟩ : Waypoint ℝ) (⟨0, 0, 0⟩ : Pose2D ℝ).position = 3 :=
    dist2d_eq (by norm_num) (by norm_num [Pose2D.position])
  rw [track_ahead hback (by rw [hend]; norm_num) bearing_lineAhead, nearest_lineAhead]

theorem tracked_lineAhead {node : MotorNode ℝ} (hpose : node.currentPose = ⟨0, 0, 0⟩)
    (hprogress : node.progress = 0) : tracked node lineAhead = (⟨0.5, 0⟩, 0) := by
  rw [tracked, hpose, hprogress, track_lineAhead]

theorem limit_lineAhead (twist : Twist2D ℝ) :
    (({} : MonitorParams ℝ).evaluate ⟨0, 0, 0⟩ lineAhead.path).limit twist = twist := by
  have hok : (({} : MonitorParams ℝ).evaluate ⟨0, 0, 0⟩ lineAhead.path).level = .ok :=
    MonitorParams.evaluate_start (by norm_num) (by norm_num)
  rw [TrackErrorState.limit, hok]

/-- One tick at free range: the speed rises by the acceleration limit. -/
theorem controlTick_cruise {a : ℝ} (hle : a + 0.025 ≤ 0.5) :
    controlTick (quiet 0) (cruise a) lineAhead =
      { node := cruise (a + 0.025)
        exec := some lineAhead
        result := none
        published := ⟨a + 0.025, 0⟩
        steer := none
        guardV := some 0.5 } := by
  have hsmooth : ({} : SmootherParams ℝ).smooth ⟨0.5, 0⟩ ⟨a, 0⟩ 0.05 = ⟨a + 0.025, 0⟩ := by
    ext
    · rw [SmootherParams.smooth_linear (by norm_num) (by norm_num), if_pos (by norm_num; linarith),
        min_eq_right (by norm_num; linarith)]
      norm_num
    · norm_num [SmootherParams.smooth, clamp]
  rw [controlTick_quiet rfl rfl (tracked_lineAhead rfl rfl) (by norm_num)
    (CollisionGuard.clamp_of_no_scan rfl rfl) (by simp [CollisionGuard.blockedFor])]
  simp only [cruise, limit_lineAhead, MotorNode.publishTwist, hsmooth]
  norm_num
  rfl

/-- An echo half a centimetre beyond the stop distance. -/
noncomputable def obstacle : ScanData ℝ where
  ranges := [some 0.305]
  angleMin := 0
  angleIncrement := 0

theorem clamp_obstacle (a : ℝ) :
    (((cruise a).onMessage (.scan obstacle 0)).guard.clamp 0.5 0).1 = 0.005 := by
  have hbeams : obstacle.beams = [(0.305, 0)] := by
    simp [ScanData.beams, obstacle]
  have hnearest : ((cruise a).onMessage (.scan obstacle 0)).guard.nearestInFov = some 0.305 := by
    simp only [CollisionGuard.nearestInFov, MotorNode.onMessage, cruise, CollisionGuard.setScan,
      hbeams]
    norm_num [GuardParams.Echo, List.filter_cons]
  have hstops : ¬ ((cruise a).onMessage (.scan obstacle 0)).guard.Stops 0 := by
    rintro ⟨recv, hrecv, hstale | hempty | ⟨d, hd, hle⟩ | ⟨hblind, -⟩⟩
    · obtain rfl := Option.some.inj hrecv
      norm_num [MotorNode.onMessage, cruise, CollisionGuard.setScan] at hstale
    · cases hempty
    · obtain rfl := Option.some.inj (hnearest.symm.trans hd)
      norm_num [MotorNode.onMessage, cruise, CollisionGuard.setScan] at hle
    · exact lt_irrefl 0 hblind
  simp only [CollisionGuard.clamp, CollisionGuard.limit, if_neg hstops, hnearest]
  norm_num [MotorNode.onMessage, cruise, CollisionGuard.setScan, AmrFramework.clamp]

theorem blockedFor_obstacle (a : ℝ) :
    (((cruise a).onMessage (.scan obstacle 0)).guard.clamp 0.5 0).2.blockedFor 0 = 0 := by
  have hok : (((cruise a).onMessage (.scan obstacle 0)).guard.clamp 0.5 0).2.lastOkTime =
      some 0 := by
    exact ite_self _
  rw [CollisionGuard.blockedFor, hok]
  rfl

/-- One tick in front of the obstacle: the guard returns 5 mm/s, and the smoother
brakes from `a` by 4 cm/s. -/
theorem controlTick_obstacle {a : ℝ} (ha : 0.045 ≤ a) :
    (controlTick (quiet 0) ((cruise a).onMessage (.scan obstacle 0)) lineAhead).result = none ∧
      (controlTick (quiet 0) ((cruise a).onMessage (.scan obstacle 0)) lineAhead).guardV =
        some 0.005 ∧
      (controlTick (quiet 0) ((cruise a).onMessage (.scan obstacle 0)) lineAhead).published.linear =
        a - 0.04 := by
  have hguard : ((cruise a).onMessage (.scan obstacle 0)).guard.clamp 0.5 0 = (0.005, _) :=
    Prod.ext (clamp_obstacle a) rfl
  have htrack : tracked ((cruise a).onMessage (.scan obstacle 0)) lineAhead = (⟨0.5, 0⟩, 0) :=
    tracked_lineAhead rfl rfl
  have hlimit : (({} : MonitorParams ℝ).evaluate ((cruise a).onMessage
      (.scan obstacle 0)).currentPose lineAhead.path).limit ⟨0.005, 0⟩ = ⟨0.005, 0⟩ :=
    limit_lineAhead ⟨0.005, 0⟩
  rw [controlTick_quiet rfl rfl htrack (by norm_num) hguard (by rw [blockedFor_obstacle]; decide)]
  refine ⟨rfl, rfl, ?_⟩
  have hbrakes : (({} : SmootherParams ℝ).smooth ⟨0.005, 0⟩ ⟨a, 0⟩ 0.05).linear = a - 0.04 := by
    rw [SmootherParams.smooth_linear (by norm_num) (by norm_num),
      if_neg (by norm_num; linarith), max_eq_right (by norm_num; linarith)]
    norm_num
  simp only [hlimit, MotorNode.publishTwist]
  rw [if_neg (by norm_num)]
  exact hbrakes

/-- The robot reaches 5 cm/s in two ticks. -/
theorem run_cruise :
    ∃ h, MotorRun false 0.30 0 h (⟨cruise 0.05, some lineAhead⟩ : MotorState ℝ) := by
  obtain ⟨h, hr⟩ := run_goal (K := ℝ) false 0.30 0 [.odom 0 0 0 1] ⟨3, 0⟩ 0
  have hbegun : ((MotorNode.configure false 0.30 0).receive [.odom 0 0 0 1]).beginGoal
      ⟨3, 0⟩ 0 [] = (cruise 0, lineAhead) := by
    have harg : Complex.arg ⟨1, 0⟩ = 0 := Complex.arg_ofReal_of_nonneg zero_le_one
    simp [MotorNode.beginGoal, MotorNode.configure, MotorNode.receive, MotorNode.onMessage,
      CollisionGuard.clearHold, cruise, lineAhead, Pose2D.position, Twist2D.zero, harg]
  rw [hbegun] at hr
  have htick : ∀ a : ℝ, a + 0.025 ≤ 0.5 →
      MotorStep (⟨cruise a, some lineAhead⟩ : MotorState ℝ) (.tick (quiet 0))
        ⟨cruise (a + 0.025), some lineAhead⟩ := by
    intro a ha
    simp only [MotorStep, MotorState.step, Option.map_some, controlTick_cruise ha]
  have hrun := (hr.snoc (htick 0 (by norm_num))).snoc (htick (0 + 0.025) (by norm_num))
  rw [show (0 + 0.025 + 0.025 : ℝ) = 0.05 by norm_num] at hrun
  exact ⟨_, hrun⟩

/-- The first tick of a goal. -/
theorem guard_last_word_first :
    (controlTick (quiet 0) (cruise 0.05) lineAhead).published.linear ≤ 0.5 ∧
      ((controlTick (quiet 0) (cruise 0.05) lineAhead).node.guard.lastStop = true →
        (controlTick (quiet 0) (cruise 0.05) lineAhead).published.linear = 0) := by
  obtain ⟨h, hr⟩ := run_cruise
  have htick := controlTick_cruise (a := 0.05) (by norm_num)
  exact (guard_last_word_iff hr lineAhead (quiet 0) 0.5 (by rw [htick]) (by rw [htick])).mpr
    (.inr (.inr (by norm_num [cruise])))

/-- In front of the obstacle the published speed is twice the one that the guard
returned. -/
theorem guard_not_last_word :
    ∃ h, ∃ s : MotorState ℝ, ∃ i v, MotorRun false 0.30 0 h s ∧ s.exec = some lineAhead ∧
      (controlTick i s.node lineAhead).result = none ∧
      (controlTick i s.node lineAhead).guardV = some v ∧
      ¬ (controlTick i s.node lineAhead).published.linear ≤ v := by
  obtain ⟨h, hr⟩ := run_cruise
  obtain ⟨hgoes, hv, hpublished⟩ := controlTick_obstacle (a := 0.05) (by norm_num)
  have hscan : MotorStep (⟨cruise 0.05, some lineAhead⟩ : MotorState ℝ)
      (.message (.scan obstacle 0))
      ⟨(cruise 0.05).onMessage (.scan obstacle 0), some lineAhead⟩ := rfl
  refine ⟨_, _, quiet 0, 0.005, hr.snoc hscan, rfl, hgoes, hv, ?_⟩
  rw [hpublished]
  norm_num

end AmrFramework.Execution
