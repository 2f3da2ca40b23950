import AmrFramework.MotorCtrlNode

/-!
# Arrival

A goal is reached when the robot is close to the end of the path that it follows. The loop moves
the start of that path along with the robot, and never its end, so the end is the one that the
path had when it was received (`ActiveGoal.destination`).

* `run_began`: the path is the latest one when the goal began;
* `track_eq_zero_iff`: pure pursuit stops exactly near the end.
-/

namespace AmrFramework.Execution

open Runs

universe u

variable {K : Type u} [Field K] [CMath K]

/-- The end of the path that a goal follows. Without a path, the motor draws a line to the
target. -/
def ActiveGoal.destination (exec : ActiveGoal K) : Waypoint K :=
  if exec.received.length < 2 then exec.target else exec.received.getLastD exec.target

/-- The execution belongs to the last goal of the history, and follows the path that was the
latest when it began. The history is split at that goal, and the node at that point is the one of
the run up to it. -/
def BeganIn [LinearOrder K] [FloorRing K] (vfhEnabled : Bool) (guardStopDist : K)
    (guardMinValidEchoes : Int) (h : List (MotorEvent K)) (exec : ActiveGoal K) : Prop :=
  ∃ before after node now beforePath,
    h = after ++ .goal exec.target now beforePath :: before ∧
    (∀ target' now' beforePath', .goal target' now' beforePath' ∉ after) ∧
    MotorRun vfhEnabled guardStopDist guardMinValidEchoes before ⟨node, none⟩ ∧
    exec.received = (node.beginGoal exec.target now beforePath).2.received

omit [Field K] [CMath K] in
/-- The loop does not move the end: a path has at least two waypoints, and only the first one
moves. -/
theorem ActiveGoal.Kept.getLast?_path {exec : ActiveGoal K} (hkept : exec.Kept) :
    exec.path.getLast? = some exec.destination := by
  obtain hlen | hlen := Nat.lt_or_ge exec.received.length 2
  · obtain ⟨start, hpath⟩ := hkept
    have hrest : exec.rest = [exec.target] := if_pos hlen
    rw [hpath, hrest, ActiveGoal.destination, if_pos hlen]
    rfl
  · obtain ⟨start, hpath⟩ := hkept.path_eq hlen
    have hne : exec.received ≠ [] := List.ne_nil_of_length_pos (two_pos.trans_le hlen)
    rw [hpath, List.getLast?_cons, List.getLast?_tail, if_neg (by omega), ActiveGoal.destination,
      if_neg (not_lt.mpr hlen), List.getLastD_eq_getLast?, List.getLast?_eq_some_getLast hne]
    rfl

variable [LinearOrder K] [FloorRing K]

section Began

variable {vfhEnabled : Bool} {guardStopDist : K} {guardMinValidEchoes : Int}
variable {h : List (MotorEvent K)}

/-- Steps that begin no goal keep the origin of the execution. -/
theorem BeganIn.cons {exec exec' : ActiveGoal K} {e : MotorEvent K}
    (hbegan : BeganIn vfhEnabled guardStopDist guardMinValidEchoes h exec)
    (he : ∀ target now beforePath, e ≠ .goal target now beforePath)
    (htarget : exec'.target = exec.target) (hreceived : exec'.received = exec.received) :
    BeganIn vfhEnabled guardStopDist guardMinValidEchoes (e :: h) exec' := by
  obtain ⟨before, after, node, now, beforePath, rfl, hafter, hbefore, hpath⟩ := hbegan
  refine ⟨before, e :: after, node, now, beforePath, ?_, ?_, hbefore, ?_⟩
  · rw [htarget, List.cons_append]
  · rintro target' now' beforePath' (_ | ⟨_, hmem⟩)
    · exact he _ _ _ rfl
    · exact hafter _ _ _ hmem
  · rw [htarget, hreceived]
    exact hpath

/-- In every run the execution belongs to the last goal. A goal that is sent while another one is
executed does not begin, so no later goal is in the history. -/
theorem run_began {s : MotorState K}
    (hr : MotorRun vfhEnabled guardStopDist guardMinValidEchoes h s) :
    ∀ exec, s.exec = some exec →
      BeganIn vfhEnabled guardStopDist guardMinValidEchoes h exec := by
  induction hr with
  | start =>
    intro exec hexec
    cases hexec
  | @snoc h s e s' hr hstep ih =>
    intro exec' hexec'
    cases e with
    | message m =>
      obtain rfl := Option.some.inj hstep
      exact (ih exec' hexec').cons (fun _ _ _ he => by cases he) rfl rfl
    | goal target now beforePath =>
      simp only [MotorStep, MotorState.step] at hstep
      split at hstep
      · next hidle =>
        obtain rfl := Option.some.inj hstep
        obtain rfl := Option.some.inj hexec'
        obtain ⟨node, _⟩ := s
        subst hidle
        exact ⟨h, [], node, now, beforePath, rfl, fun _ _ _ => List.not_mem_nil, hr, rfl⟩
      · cases hstep
    | tick i =>
      obtain ⟨exec, hexec, rfl⟩ := Option.map_eq_some_iff.mp hstep
      obtain ⟨-, hreceived, htarget⟩ := (run_kept hr exec hexec).tick hexec'
      exact (ih exec hexec).cons (fun _ _ _ he => by cases he) htarget hreceived

end Began

variable [IsStrictOrderedRing K]

/-- **A zero twist**, for every pose and every path: pure pursuit returns it exactly when the
goal is near, and drives forward within its limits elsewhere. So in every run the loop takes
the robot to have arrived exactly when the end of its path is near. -/
theorem track_eq_zero_iff :
    (∀ p : PursuitParams K, p.Positive → ∀ (progress : Nat) (path : List (Waypoint K))
        (current : Pose2D K) (goal : Waypoint K), path.getLast? = some goal →
        ((p.track progress path current).1 = .zero ↔
            dist2d goal current.position < p.goalTolerance) ∧
          (¬ dist2d goal current.position < p.goalTolerance →
            0 < (p.track progress path current).1.linear ∧
              (p.track progress path current).1.linear ≤ p.maxLinear ∧
              |(p.track progress path current).1.angular| ≤ p.maxAngular)) ∧
      ∀ (vfhEnabled : Bool) (guardStopDist : K) (guardMinValidEchoes : Int)
        (h : List (MotorEvent K)) (s : MotorState K) (exec : ActiveGoal K),
        MotorRun vfhEnabled guardStopDist guardMinValidEchoes h s → s.exec = some exec →
          (Arrived s.node exec ↔ dist2d exec.destination s.node.currentPose.position <
            ({} : PursuitParams K).goalTolerance) := by
  constructor
  · intro p hp progress path current goal hgoal
    rcases hp.track_cases progress hgoal current with ⟨hnear, htrack⟩ | ⟨hfar, hpos, hmax, -⟩
    · rw [htrack]
      exact ⟨iff_of_true rfl hnear, fun hfar => absurd hnear hfar⟩
    · refine ⟨iff_of_false (fun hzero => ?_) (not_lt.mpr hfar), fun _ => ⟨hpos, hmax, ?_⟩⟩
      · rw [hzero] at hpos
        exact lt_irrefl _ hpos
      · exact hp.abs_angular_le progress path current
  · intro vfhEnabled guardStopDist guardMinValidEchoes h s exec hr hexec
    exact arrived_iff (run_kept hr exec hexec).getLast?_path

/-- At the end of its path the robot is stopped, and a metre before it drives on. -/
theorem track_eq_zero_straight :
    (({} : PursuitParams ℝ).track 0 [⟨0, 0⟩, ⟨1, 0⟩] ⟨1, 0, 0⟩).1 = .zero ∧
      0 < (({} : PursuitParams ℝ).track 0 [⟨0, 0⟩, ⟨1, 0⟩] ⟨0, 0, 0⟩).1.linear := by
  have htrack := (track_eq_zero_iff (K := ℝ)).1 {} PursuitParams.positive_default 0
    [⟨0, 0⟩, ⟨1, 0⟩]
  have hend : dist2d (⟨1, 0⟩ : Waypoint ℝ) ⟨1, 0⟩ = 0 := dist2d_eq le_rfl (by norm_num)
  have hstart : dist2d (⟨1, 0⟩ : Waypoint ℝ) ⟨0, 0⟩ = 1 := dist2d_eq zero_le_one (by norm_num)
  constructor
  · refine (htrack ⟨1, 0, 0⟩ ⟨1, 0⟩ rfl).1.mpr (hend.trans_lt ?_)
    norm_num
  · refine ((htrack ⟨0, 0, 0⟩ ⟨1, 0⟩ rfl).2 (not_lt.mpr (le_of_le_of_eq ?_ hstart.symm))).1
    norm_num

end AmrFramework.Execution
