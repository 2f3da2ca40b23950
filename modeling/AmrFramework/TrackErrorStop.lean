import AmrFramework.MotorCtrlNode

/-!
# Stopping off the path

The monitor stops a robot that is too far from the path. The path that it is
given is the copy of the loop, whose first waypoint moves with the robot.

`track_error_stop` says what that costs: a robot away from every segment that
was received is stopped when it is away from the moved first segment, too.

The first segment is the one that the loop moves: after a round it begins at the robot and ends
at the second waypoint. So a robot that is away from everything it was sent along is still on its
path, from the second round on.
-/

namespace AmrFramework.Execution

open Runs

universe u

variable {K : Type u} [Field K] [CMath K] [LinearOrder K]

/-- The first segment, as the loop has moved it, is too far away. A path of one waypoint has
none. -/
def StartAway (node : MotorNode K) (exec : ActiveGoal K) : Prop :=
  ∀ sg ∈ (segments exec.path).head?,
    ({} : MonitorParams K).stopThreshold ≤ |pointSegmentDist node.currentPose.position sg.1 sg.2|

/-- Every segment that was received is too far away. -/
def AwayFromReceived (node : MotorNode K) (exec : ActiveGoal K) : Prop :=
  ∀ sg ∈ segments exec.received,
    AwayFrom ({} : MonitorParams K).stopThreshold node.currentPose.position sg

variable [FloorRing K] [IsStrictOrderedRing K]

/-- Away from what was received, only the moved segment can hide the error. The other segments of
the copy are those that were received (`Kept.getElem?_path`), so they are too far away already. -/
theorem trackError_iff {node : MotorNode K} {exec : ActiveGoal K} (hkept : exec.Kept)
    (hreceived : 2 ≤ exec.received.length) (haway : AwayFromReceived node exec) :
    TrackError node exec ↔ StartAway node exec := by
  obtain ⟨start, hpath⟩ := hkept.path_eq hreceived
  obtain ⟨first, next, rest, hwas⟩ : ∃ first next rest, exec.received = first :: next :: rest := by
    rcases hr : exec.received with _ | ⟨first, _ | ⟨next, rest⟩⟩
    · simp [hr] at hreceived
    · simp [hr] at hreceived
    · exact ⟨first, next, rest, rfl⟩
  rw [hwas] at hpath
  have hothers : ∀ sg ∈ segments (next :: rest), ({} : MonitorParams K).stopThreshold ≤
      |pointSegmentDist node.currentPose.position sg.1 sg.2| := by
    intro sg hsg
    refine AwayFrom.le_pointSegmentDist (haway sg ?_)
    rw [hwas]
    exact List.mem_cons_of_mem _ hsg
  have hsegments : segments exec.path = (start, next) :: segments (next :: rest) := by
    rw [hpath]
    rfl
  have hlen : ¬ exec.path.length < 2 := by
    rw [hpath]
    simp
  rw [TrackError, MonitorParams.evaluate_error_iff (by norm_num [floatMax]), or_iff_right hlen,
    StartAway, hsegments, List.forall_mem_cons, and_iff_left hothers]
  simp

variable {vfhEnabled : Bool} {guardStopDist : K} {guardMinValidEchoes : Int}
variable {h : List (MotorEvent K)} {s : MotorState K} {exec : ActiveGoal K}

/-- **Stopping off the path**, in every tick of every run: away from every segment
that was received, the monitor reports an error exactly when the moved first
segment is too far away as well, and then a zero twist is published. -/
theorem track_error_stop (hr : MotorRun vfhEnabled guardStopDist guardMinValidEchoes h s)
    (hexec : s.exec = some exec) (hreceived : 2 ≤ exec.received.length)
    (haway : AwayFromReceived s.node exec) (i : ControlInput K) :
    (TrackError s.node exec ↔ StartAway s.node exec) ∧
      (StartAway s.node exec → (controlTick i s.node exec).published = .zero) := by
  have hiff := trackError_iff (run_kept hr exec hexec) hreceived haway
  exact ⟨hiff, fun hstart => published_of_trackError (hiff.mpr hstart)⟩

/-! ## A robot that was put beside its path

The path goes from `(3, 0)` to `(3, 4)` and the robot stands at `(0, 4)`. The first tick finds it
three metres away and stops. The same tick moves the start of the path to the robot, and from
there a segment leads to `(3, 4)`, straight ahead. -/

/-- The path from `(3, 0)` to `(3, 4)`, with its first waypoint moved. -/
def besidePath (start : Waypoint ℝ) : ActiveGoal ℝ where
  target := ⟨3, 4⟩
  received := [⟨3, 0⟩, ⟨3, 4⟩]
  path := [start, ⟨3, 4⟩]

/-- A robot that stands at `(0, 4)` and looks along the first axis. -/
noncomputable def beside (progress : Nat) : MotorNode ℝ where
  guard := { params := { stopDist := 0.30, minValidEchoes := 0 }, lastOkTime := some 0 }
  vfhEnabled := false
  progress := progress
  latestPath := [⟨3, 0⟩, ⟨3, 4⟩]
  currentPose := ⟨0, 4, 0⟩
  odomValid := true

/-- It is three metres away from the path. -/
theorem besidePath_away (progress : Nat) (start : Waypoint ℝ) :
    AwayFromReceived (beside progress) (besidePath start) := by
  intro sg hsg
  obtain rfl : sg = (⟨3, 0⟩, ⟨3, 4⟩) := List.mem_singleton.mp hsg
  intro t _ _
  rw [dist2d, CMath.sqrt_real]
  apply Real.le_sqrt_of_sq_le
  norm_num [beside, Pose2D.position, alongSegment]
  nlinarith [mul_self_nonneg (4 - t * 4)]

theorem dist2d_beside :
    dist2d (⟨3, 4⟩ : Waypoint ℝ) (⟨0, 4, 0⟩ : Pose2D ℝ).position = 3 ∧
      dist2d (⟨3, 0⟩ : Waypoint ℝ) (⟨0, 4, 0⟩ : Pose2D ℝ).position = 5 :=
  ⟨dist2d_eq (by norm_num) (by norm_num [Pose2D.position]),
    dist2d_eq (by norm_num) (by norm_num [Pose2D.position])⟩

theorem tracked_beside {progress : Nat} {start : Waypoint ℝ}
    (hnearest : nearest progress [start, ⟨3, 4⟩] (⟨0, 4, 0⟩ : Pose2D ℝ) = (1, 3)) :
    tracked (beside progress) (besidePath start) = (⟨0.5, 0⟩, 1) := by
  obtain ⟨hend, -⟩ := dist2d_beside
  have hlookahead : ({} : PursuitParams ℝ).findLookahead progress (besidePath start).path ⟨3, 4⟩
      ⟨0, 4, 0⟩ = (1, ⟨3, 4⟩) := by
    simp only [PursuitParams.findLookahead, besidePath, hnearest]
    rfl
  have hback : (besidePath start).path.getLast? = some ⟨3, 4⟩ := rfl
  have hahead : bearing (({} : PursuitParams ℝ).findLookahead progress (besidePath start).path
      ⟨3, 4⟩ ⟨0, 4, 0⟩).2 ⟨0, 4, 0⟩ = 0 := by
    rw [hlookahead]
    exact bearing_ahead rfl rfl (by norm_num)
  have htrack := track_ahead hback (by rw [hend]; norm_num) hahead
  exact htrack.trans (congrArg _ (congrArg Prod.fst hnearest))

/-- The first tick stops, and moves the start of the path to the robot. -/
theorem controlTick_beside_first :
    controlTick (quiet 0) (beside 0) (besidePath ⟨3, 0⟩) =
      { node := beside 1
        exec := some (besidePath ⟨0, 4⟩)
        result := none
        published := .zero
        steer := none
        guardV := some 0.5 } := by
  obtain ⟨hend, hstart⟩ := dist2d_beside
  have hnearest : nearest 0 [⟨3, 0⟩, ⟨3, 4⟩] (⟨0, 4, 0⟩ : Pose2D ℝ) = (1, 3) := by
    norm_num [nearest, searchNearest, hstart, hend, floatMax]
  have herror : (({} : MonitorParams ℝ).evaluate (beside 0).currentPose
      (besidePath ⟨3, 0⟩).path).level = .error := by
    refine (MonitorParams.evaluate_error_iff (by norm_num [floatMax])).mpr (.inr ?_)
    exact fun sg hsg => (besidePath_away 0 ⟨3, 0⟩ sg hsg).le_pointSegmentDist
  have hlimit : ∀ twist, (({} : MonitorParams ℝ).evaluate (beside 0).currentPose
      (besidePath ⟨3, 0⟩).path).limit twist = .zero := by
    intro twist
    rw [TrackErrorState.limit, herror]
  rw [controlTick_quiet rfl rfl (tracked_beside hnearest) (by norm_num)
    (CollisionGuard.clamp_of_no_scan rfl rfl) (by simp [CollisionGuard.blockedFor])]
  simp only [hlimit, MotorNode.publishTwist]
  rw [if_pos ⟨rfl, rfl⟩]
  rfl

/-- The second tick drives. -/
theorem controlTick_beside_second :
    (controlTick (quiet 0) (beside 1) (besidePath ⟨0, 4⟩)).published.linear = 0.025 := by
  obtain ⟨hend, -⟩ := dist2d_beside
  have hnearest : nearest 1 [⟨0, 4⟩, ⟨3, 4⟩] (⟨0, 4, 0⟩ : Pose2D ℝ) = (1, 3) := by
    norm_num [nearest, searchNearest, hend, floatMax]
  have hok : (({} : MonitorParams ℝ).evaluate (beside 1).currentPose
      (besidePath ⟨0, 4⟩).path).level = .ok :=
    MonitorParams.evaluate_start (by norm_num) (by norm_num)
  have hlimit : ∀ twist, (({} : MonitorParams ℝ).evaluate (beside 1).currentPose
      (besidePath ⟨0, 4⟩).path).limit twist = twist := by
    intro twist
    rw [TrackErrorState.limit, hok]
  have hstarts : (({} : SmootherParams ℝ).smooth ⟨0.5, 0⟩ .zero 0.05).linear = 0.025 := by
    norm_num [SmootherParams.smooth, clamp, Twist2D.zero]
  rw [controlTick_quiet rfl rfl (tracked_beside hnearest) (by norm_num)
    (CollisionGuard.clamp_of_no_scan rfl rfl) (by simp [CollisionGuard.blockedFor])]
  simp only [hlimit, MotorNode.publishTwist]
  rw [if_neg (by norm_num)]
  exact hstarts

theorem run_beside :
    ∃ h, MotorRun false 0.30 0 h (⟨beside 0, some (besidePath ⟨3, 0⟩)⟩ : MotorState ℝ) := by
  obtain ⟨h, hr⟩ := run_goal (K := ℝ) false 0.30 0
    [.odom 0 4 0 1, .path [⟨3, 0⟩, ⟨3, 4⟩]] ⟨3, 4⟩ 0
  have hbegun : ((MotorNode.configure false 0.30 0).receive
      [.odom 0 4 0 1, .path [⟨3, 0⟩, ⟨3, 4⟩]]).beginGoal ⟨3, 4⟩ 0 [] =
      (beside 0, besidePath ⟨3, 0⟩) := by
    have harg : Complex.arg ⟨1, 0⟩ = 0 := Complex.arg_ofReal_of_nonneg zero_le_one
    simp [MotorNode.beginGoal, MotorNode.configure, MotorNode.receive, MotorNode.onMessage,
      CollisionGuard.clearHold, beside, besidePath, harg]
  rw [hbegun] at hr
  exact ⟨h, hr⟩

/-- The monitor stops the robot in its first tick. -/
theorem track_error_stop_first :
    (controlTick (quiet 0) (beside 0) (besidePath ⟨3, 0⟩)).published = .zero := by
  obtain ⟨h, hr⟩ := run_beside
  refine (track_error_stop hr rfl (by decide) (besidePath_away 0 ⟨3, 0⟩) (quiet 0)).2 ?_
  rintro sg hsg
  exact (besidePath_away 0 ⟨3, 0⟩ sg (List.mem_of_mem_head? hsg)).le_pointSegmentDist

/-- It lets it drive in the second, three metres away from the path. -/
theorem track_error_not_stopped :
    ∃ h, ∃ s : MotorState ℝ, ∃ exec i, MotorRun false 0.30 0 h s ∧ s.exec = some exec ∧
      2 ≤ exec.received.length ∧ AwayFromReceived s.node exec ∧
      (controlTick i s.node exec).published ≠ .zero := by
  obtain ⟨h, hr⟩ := run_beside
  have htick : MotorStep (⟨beside 0, some (besidePath ⟨3, 0⟩)⟩ : MotorState ℝ) (.tick (quiet 0))
      ⟨beside 1, some (besidePath ⟨0, 4⟩)⟩ := by
    simp only [MotorStep, MotorState.step, Option.map_some, controlTick_beside_first]
  refine ⟨_, _, besidePath ⟨0, 4⟩, quiet 0, hr.snoc htick, rfl, by decide,
    besidePath_away 1 ⟨0, 4⟩, ?_⟩
  intro hzero
  have hmoves := controlTick_beside_second
  rw [hzero] at hmoves
  norm_num [Twist2D.zero] at hmoves

end AmrFramework.Execution
