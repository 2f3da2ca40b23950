import Mathlib.Analysis.Real.Pi.Bounds
import AmrFramework.GuardLastWord

/-!
# The remembered gap

The avoidance keeps to a gap while it is passable. `execute` resets the tracker
and the guard when a goal begins, but not this memory, so that the gap of an
earlier goal can decide where the robot turns for the next.

* `VfhParams.answers` — what the avoidance answers to a sequence of requests, as
  a function of its memory.
* `MotorState.steerings` — what an execution of the node sees, and how it is steered.
* `steerings_eq` — an execution is steered by what it sees and by the memory that it
  begins with, and by nothing else of what was before.
* `goal_memory` — a goal begins with the memory of the one before.

The rest is two runs of the node to which the memory makes a difference: a robot
with a single echo ahead, with and without an earlier goal.
-/

namespace AmrFramework.Execution

open Runs

universe u

variable {K : Type u} [Field K]

/-- What the avoidance is asked in a round: all that `steer` is given beside the remembered gap. -/
structure SteerRequest (K : Type u) : Type u where
  scan : ScanData K
  goalAngle : K
  cmdV : K

/-- What the loop sees in a round: the copied scan, the pose, the path. The request to the
avoidance is computed from these and the progress along the path. -/
structure Sight (K : Type u) : Type u where
  scan : ScanData K
  pose : Pose2D K
  path : List (Waypoint K)

variable [LinearOrder K] [CMath K]

/-! ## The avoidance alone

`steer` as a function of the memory and a request. It has two ways to answer, of which only one
looks at the memory (`steer_of_idle`, `steer_of_not_idle`). -/

/-- The avoidance does not choose a gap: the robot is slow, or the goal bearing is free. It then
answers zero and leaves its memory as it is. -/
def VfhParams.Idle (p : VfhParams K) (q : SteerRequest K) : Prop :=
  q.cmdV ≤ p.minLinear ∨ ¬ p.Engaged q.scan q.goalAngle

instance (p : VfhParams K) (q : SteerRequest K) : Decidable (p.Idle q) :=
  inferInstanceAs (Decidable (_ ∨ _))

/-- Two gaps turn the robot alike: they are the same, or both are so far to one
side that the steering is limited. -/
def VfhParams.SameTurn (p : VfhParams K) (gap₁ gap₂ : K) : Prop :=
  gap₁ = gap₂ ∨ (p.maxSteering ≤ 2.0 * gap₁ ∧ p.maxSteering ≤ 2.0 * gap₂) ∨
    (2.0 * gap₁ ≤ -p.maxSteering ∧ 2.0 * gap₂ ≤ -p.maxSteering)

variable [FloorRing K]

/-- The answers to a sequence of requests. The memory is threaded through and is not part of what
is answered. -/
def VfhParams.answers (p : VfhParams K) : Option K → List (SteerRequest K) → List (SteerResult K)
  | _, [] => []
  | memory, q :: requests =>
    let (result, memory') := p.steer memory q.scan q.goalAngle q.cmdV
    result :: p.answers memory' requests

/-- A call that does not act answers nothing and remembers what it did. -/
theorem VfhParams.steer_of_idle {p : VfhParams K} {q : SteerRequest K} (hidle : p.Idle q)
    (memory : Option K) :
    p.steer memory q.scan q.goalAngle q.cmdV = (⟨0, false⟩, memory) := by
  rw [VfhParams.steer]
  split_ifs with hslow hengaged
  · rfl
  · exact absurd hidle (not_or.mpr ⟨hslow, not_not.mpr hengaged⟩)
  · rfl

/-- A call that acts steers to the chosen gap and remembers it. Without any gap it answers that
the robot is blocked, and forgets. -/
theorem VfhParams.steer_of_not_idle {p : VfhParams K} {q : SteerRequest K} (hidle : ¬ p.Idle q)
    (memory : Option K) :
    p.steer memory q.scan q.goalAngle q.cmdV =
      match p.bestGapCenter (p.histogram q.scan) q.goalAngle with
      | none => (⟨0, true⟩, none)
      | some fresh =>
        let chosen := p.chooseGap (p.histogram q.scan) memory fresh
        (⟨clamp (2.0 * chosen) (-p.maxSteering) p.maxSteering, false⟩, some chosen) := by
  obtain ⟨hslow, hengaged⟩ := not_or.mp hidle
  exact (if_neg hslow).trans (if_neg hengaged)

variable [IsStrictOrderedRing K]

omit [CMath K] [FloorRing K] in
/-- The steering of two gaps is the same when they turn the robot alike. -/
theorem VfhParams.clamp_eq_iff_sameTurn {p : VfhParams K} (hp : 0 < p.maxSteering) (gap₁ gap₂ : K) :
    clamp (2.0 * gap₁) (-p.maxSteering) p.maxSteering =
        clamp (2.0 * gap₂) (-p.maxSteering) p.maxSteering ↔ p.SameTurn gap₁ gap₂ := by
  rw [clamp_eq_clamp_iff (neg_lt_self hp), mul_right_inj' (by norm_num), VfhParams.SameTurn]

omit [IsStrictOrderedRing K]

/-! ## The avoidance in the loop

An execution of a goal is a run of events in which nothing of the node is chosen by an outside
party but what it sees. The requests are a function of the sights, and the memory is threaded
through them, so all that two executions can differ in is the memory that they begin with. -/

/-- The request of a round, and the progress after it. The tracker is asked twice in a round, for
the twist and for the bearing, and may advance in both. -/
def Sight.request (sight : Sight K) (progress : Nat) : SteerRequest K × Nat :=
  let (twist, progress') := ({} : PursuitParams K).track progress sight.path sight.pose
  let (goalAngle, progress'') :=
    ({} : PursuitParams K).lookaheadBearing progress' sight.path sight.pose
  (⟨sight.scan, goalAngle, twist.linear⟩, progress'')

/-- The requests of an execution, from what it sees. The answers of the avoidance do not come in,
as what they do to the robot is seen in the next pose. -/
def requests : Nat → List (Sight K) → List (SteerRequest K)
  | _, [] => []
  | progress, sight :: sights =>
    let (q, progress') := sight.request progress
    q :: requests progress' sights

/-- What the loop sees in a round. The scan is copied at its beginning, so a scan that comes
meanwhile is for the next round. -/
def sight (i : ControlInput K) (node : MotorNode K) (exec : ActiveGoal K) : Sight K where
  scan := (tracking i node exec).guard.scan
  pose := node.currentPose
  path := exec.path

/-- What the loop sees and what the avoidance answers, if it is asked in the round: a round in
which the robot arrives, or the goal is cancelled, does not ask. -/
def steering (node : MotorNode K) (exec : ActiveGoal K) :
    MotorEvent K → Option (Sight K × SteerResult K)
  | .tick i => (controlTick i node exec).steer.map fun result => (sight i node exec, result)
  | _ => none

/-- The same for all events of an execution; it ends with the goal. -/
def MotorState.steerings (s : MotorState K) : List (MotorEvent K) → List (Sight K × SteerResult K)
  | [] => []
  | e :: events =>
    match s.exec, s.step e with
    | some exec, some s' => (steering s.node exec e).toList ++ s'.steerings events
    | _, _ => []

/-- In a round the avoidance answers the request of what is seen. -/
theorem steered_eq (i : ControlInput K) (node : MotorNode K) (exec : ActiveGoal K) :
    let q := (sight i node exec).request node.progress
    steered i node exec =
        ({} : VfhParams K).steer node.lastGapCenter q.1.scan q.1.goalAngle q.1.cmdV ∧
      (goalBearing i node exec).2 = q.2 := by
  obtain ⟨-, hprogress, hmemory, -⟩ :=
    { node with progress := (tracked node exec).2 }.receive_keeps i.beforeSnapshot
  simp only [steered, goalBearing, Sight.request, sight, tracking, hprogress, hmemory]
  exact ⟨rfl, rfl⟩

/-- Whether the avoidance is enabled does not change. -/
theorem avoiding_vfhEnabled (i : ControlInput K) (node : MotorNode K) (exec : ActiveGoal K) :
    (avoiding i node exec).vfhEnabled = node.vfhEnabled := by
  have htracking : (tracking i node exec).vfhEnabled = node.vfhEnabled :=
    (MotorNode.receive_keeps _ _).2.2.2.1
  simp only [avoiding]
  rw [(MotorNode.receive_keeps _ _).2.2.2.1]
  split_ifs
  · exact htracking
  · exact htracking

/-- The node that the guard is given has the new memory and the new progress. -/
theorem avoiding_memory {i : ControlInput K} {node : MotorNode K} (exec : ActiveGoal K)
    (hvfh : node.vfhEnabled = true) :
    (avoiding i node exec).lastGapCenter = (steered i node exec).2 ∧
      (avoiding i node exec).progress = (goalBearing i node exec).2 := by
  simp only [avoiding, hvfh, if_true]
  obtain ⟨-, hprogress, hmemory, -⟩ := MotorNode.receive_keeps
    { tracking i node exec with
      progress := (goalBearing i node exec).2
      lastGapCenter := (steered i node exec).2 } i.beforeClamp
  exact ⟨hmemory, hprogress⟩

omit [FloorRing K] in
/-- The end of a round keeps them. -/
theorem MotorNode.proceed_keeps (node : MotorNode K) (i : ControlInput K) (current : Pose2D K)
    (exec : ActiveGoal K) (twist : Twist2D K) (steer : Option (SteerResult K)) (guardV : K) :
    let out := node.proceed i current exec twist steer guardV
    out.node.vfhEnabled = node.vfhEnabled ∧ out.node.lastGapCenter = node.lastGapCenter ∧
      out.node.progress = node.progress := by
  obtain ⟨-, hprogress, hmemory, henabled, -⟩ :=
    (node.publishTwist twist).receive_keeps i.beforeAdvance
  obtain ⟨-, hprogress', hmemory', henabled', -⟩ :=
    ((node.publishTwist twist).receive i.beforeAdvance).receive_keeps i.beforeStore
  simp only [MotorNode.proceed]
  split_ifs
  all_goals
    exact ⟨henabled'.trans henabled, hmemory'.trans hmemory, hprogress'.trans hprogress⟩

/-- A round with avoidance ends the goal before it asks, or it asks, and the node has
the new memory and the new progress. -/
theorem controlTick_steer {i : ControlInput K} {node : MotorNode K} (exec : ActiveGoal K)
    (hvfh : node.vfhEnabled = true) :
    ((controlTick i node exec).steer = none ∧ (controlTick i node exec).exec = none) ∨
      ((controlTick i node exec).steer = some (steered i node exec).1 ∧
        (controlTick i node exec).node.vfhEnabled = true ∧
        (controlTick i node exec).node.lastGapCenter = (steered i node exec).2 ∧
        (controlTick i node exec).node.progress = (goalBearing i node exec).2) := by
  have hanswered : answered i node exec = some (steered i node exec).1 := by
    rw [answered, hvfh]
    rfl
  have henabled := (avoiding_vfhEnabled i node exec).trans hvfh
  obtain ⟨hmemory, hprogress⟩ := avoiding_memory (i := i) exec hvfh
  simp only [controlTick, hanswered]
  split_ifs with hcancel harrived hblocked
  · exact .inl ⟨rfl, rfl⟩
  · exact .inl ⟨rfl, rfl⟩
  · exact .inr ⟨rfl, henabled, hmemory, hprogress⟩
  · obtain ⟨henabled', hmemory', hprogress'⟩ :=
      (guarding i node exec).proceed_keeps i node.currentPose exec (commanded i node exec)
        (some (steered i node exec).1) (guarded i node exec).1
    exact .inr ⟨rfl, henabled'.trans henabled, hmemory'.trans hmemory, hprogress'.trans hprogress⟩

/-- A round without avoidance does not ask. -/
theorem controlTick_disabled {i : ControlInput K} {node : MotorNode K} (exec : ActiveGoal K)
    (hvfh : node.vfhEnabled = false) :
    (controlTick i node exec).steer = none ∧
      (controlTick i node exec).node.vfhEnabled = false := by
  have hanswered : answered i node exec = none := by
    rw [answered, hvfh]
    rfl
  have hdisabled := (avoiding_vfhEnabled i node exec).trans hvfh
  simp only [controlTick, hanswered]
  split_ifs with hcancel harrived hblocked
  · exact ⟨rfl, hvfh⟩
  · exact ⟨rfl, hvfh⟩
  · exact ⟨rfl, hdisabled⟩
  · obtain ⟨hdisabled', -⟩ :=
      (guarding i node exec).proceed_keeps i node.currentPose exec (commanded i node exec) none
        (guarded i node exec).1
    exact ⟨rfl, hdisabled'.trans hdisabled⟩

/-- After its goal an execution asks nothing. -/
theorem steerings_of_none {s : MotorState K} (hexec : s.exec = none)
    (events : List (MotorEvent K)) : s.steerings events = [] := by
  cases events with
  | nil => rfl
  | cons e events => rw [MotorState.steerings, hexec]

/-- Without avoidance an execution asks nothing. -/
theorem steerings_of_disabled {s : MotorState K} (hvfh : s.node.vfhEnabled = false)
    (events : List (MotorEvent K)) : s.steerings events = [] := by
  induction events generalizing s with
  | nil => rfl
  | cons e events ih =>
    obtain ⟨node, _ | exec⟩ := s
    · rfl
    · cases e with
      | message m =>
        obtain ⟨-, -, -, henabled, -⟩ := node.receive_keeps [m]
        exact ih (s := ⟨node.onMessage m, some exec⟩) (henabled.trans hvfh)
      | goal target now beforePath => rfl
      | tick i =>
        obtain ⟨hsteer, hdisabled⟩ := controlTick_disabled (i := i) exec hvfh
        have hrest := ih (s := ⟨(controlTick i node exec).node, (controlTick i node exec).exec⟩)
          hdisabled
        simp only [MotorState.steerings, MotorState.step, Option.map_some, steering, hsteer, hrest]
        rfl

/-- An execution is steered by what it sees, and by the memory that it begins with. By induction
on the events: each round asks with the sight of that round and leaves its memory to the next. -/
theorem steerings_eq (s : MotorState K) (events : List (MotorEvent K)) :
    (s.steerings events).map Prod.snd =
      ({} : VfhParams K).answers s.node.lastGapCenter
        (requests s.node.progress ((s.steerings events).map Prod.fst)) := by
  rcases hvfh : s.node.vfhEnabled
  · rw [steerings_of_disabled hvfh]
    rfl
  · induction events generalizing s with
    | nil => rfl
    | cons e events ih =>
      obtain ⟨node, _ | exec⟩ := s
      · rfl
      · cases e with
        | message m =>
          obtain ⟨-, hprogress, hmemory, henabled, -⟩ := node.receive_keeps [m]
          have hrest := ih (s := ⟨node.receive [m], some exec⟩) (henabled.trans hvfh)
          rw [hprogress, hmemory] at hrest
          exact hrest
        | goal target now beforePath => rfl
        | tick i =>
          simp only [MotorState.steerings, MotorState.step, Option.map_some, steering]
          rcases controlTick_steer (i := i) exec hvfh with
            ⟨hsteer, hexec⟩ | ⟨hsteer, henabled, hmemory, hprogress⟩
          · rw [hsteer, steerings_of_none hexec events]
            rfl
          · obtain ⟨hanswer, hbearing⟩ := steered_eq i node exec
            rw [hsteer]
            simp only [Option.map_some, Option.toList_some, List.singleton_append, List.map_cons,
              requests, VfhParams.answers]
            rw [← hanswer]
            congr 1
            have hrest := ih (s := ⟨(controlTick i node exec).node,
              (controlTick i node exec).exec⟩) henabled
            simp only [hmemory, hprogress, hbearing] at hrest
            exact hrest

/-- A goal begins with the memory of the one before. The tracker is reset, so the progress is
zero, but nothing resets the avoidance. -/
theorem goal_memory {s s' : MotorState K} {target : Waypoint K} {now : Int}
    {beforePath : List (Message K)} (hgoal : MotorStep s (.goal target now beforePath) s') :
    s'.node.lastGapCenter = s.node.lastGapCenter ∧ s'.node.progress = 0 := by
  simp only [MotorStep, MotorState.step] at hgoal
  split at hgoal
  · obtain rfl := Option.some.inj hgoal
    obtain ⟨-, hprogress, hmemory, -⟩ := MotorNode.receive_keeps
      { s.node with progress := 0, guard := s.node.guard.clearHold now } beforePath
    exact ⟨hmemory, hprogress⟩
  · cases hgoal

/-! ## One echo

A sector is `π / 30` wide, as there are 60 of them by default; so the centers of the runs below
are multiples of `π`, and which sector an echo lies in is a comparison of two numbers. -/

/-- One echo at 0.4 m. -/
noncomputable def singleEcho (angle : ℝ) : ScanData ℝ where
  ranges := [some 0.4]
  angleMin := angle
  angleIncrement := 0

/-- It is the only one. -/
theorem echoes_singleEcho (angle : ℝ) : (singleEcho angle).echoes = [(0.4, angle)] := by
  have hbeams : (singleEcho angle).beams = [(0.4, angle)] := by simp [ScanData.beams, singleEcho]
  rw [ScanData.echoes, hbeams]
  norm_num [List.filter_cons]

/-- The echo is near the bearing straight ahead. -/
theorem not_idle_singleEcho (angle : ℝ) (hangle : |angle| ≤ 0.7854) :
    ¬ ({} : VfhParams ℝ).Idle ⟨singleEcho angle, 0, 0.5⟩ := by
  have hle := abs_le.mp hangle
  have hpi := Real.pi_gt_three
  have hwrap : wrap angle = angle := wrap_of_mem ⟨by linarith, by linarith⟩
  have hnearest : ({} : VfhParams ℝ).nearestInGoalFov (singleEcho angle) 0 = some 0.4 := by
    simp [VfhParams.nearestInGoalFov, echoes_singleEcho, hwrap, hangle]
  refine not_or.mpr ⟨by norm_num, not_not.mpr ⟨0.4, hnearest, by norm_num⟩⟩

/-- The sector `n` of an angle, from two comparisons with multiples of `π`. -/
theorem binOf_eq {angle : ℝ} {n : ℕ} (hangle : angle ∈ Set.Ioc (-Real.pi) Real.pi)
    (hlo : (n : ℝ) * Real.pi ≤ (angle + Real.pi) * 30)
    (hhi : (angle + Real.pi) * 30 < (n + 1) * Real.pi) :
    ({} : VfhParams ℝ).binOf angle = n := by
  have hpi := Real.pi_pos
  have hquot : (wrap angle + CMath.pi) / ({} : VfhParams ℝ).binWidth =
      (angle + Real.pi) * 30 / Real.pi := by
    rw [wrap_of_mem hangle, CMath.pi_real, VfhParams.binWidth, CMath.pi_real]
    norm_num
    field_simp
    ring
  have hnonneg : 0 ≤ (angle + Real.pi) * 30 / Real.pi :=
    div_nonneg ((mul_nonneg n.cast_nonneg hpi.le).trans hlo) hpi.le
  rw [VfhParams.binOf, hquot, truncate, if_pos hnonneg, Int.floor_eq_iff]
  constructor
  · rw [le_div_iff₀ hpi]
    exact_mod_cast hlo
  · rw [div_lt_iff₀ hpi]
    exact_mod_cast hhi

/-- Only the sector of the echo is not passable: at 0.4 m it is nearer than what a sector must be
free for. -/
theorem passable_singleEcho {angle : ℝ} {n : ℕ} (hbin : ({} : VfhParams ℝ).binOf angle = n)
    (hn : n < 60) :
    (({} : VfhParams ℝ).histogram (singleEcho angle)).map ({} : VfhParams ℝ).passable =
      (List.replicate 60 true).set n false := by
  have hsector : ({} : VfhParams ℝ).sector n = n := by
    have hclamp : AmrFramework.clamp (n : Int) 0 (60 - 1) = n := clamp_eq (by omega) (by omega)
    simp only [VfhParams.sector]
    rw [show (((60 : ℕ) : ℤ) - 1) = 60 - 1 from rfl, hclamp, Int.toNat_natCast]
  simp only [VfhParams.histogram, echoes_singleEcho, List.foldl_cons, List.foldl_nil, hbin, hsector]
  rw [List.modify_eq_set, List.map_set, List.map_replicate, List.getElem?_replicate_of_lt hn]
  norm_num [VfhParams.passable]

/-- Multiples of `π` in range are wrapped already. -/
theorem wrap_mul_pi {c : ℝ} (hlo : -1 < c) (hhi : c ≤ 1) : wrap (c * Real.pi) = c * Real.pi := by
  have hpi := Real.pi_pos
  exact wrap_of_mem ⟨by nlinarith, by nlinarith⟩

/-- The center of a run of sectors, as a multiple of `π`. -/
theorem gapCenter_eq {run : ℕ × ℕ} {c : ℝ} (hlo : -1 < c) (hhi : c ≤ 1)
    (hc : ((run.1 : ℝ) + run.2 / 2 + 1 / 2) / 30 - 1 = c) :
    ({} : VfhParams ℝ).gapCenter run = c * Real.pi := by
  have hcenter : -CMath.pi + ((run.1 : ℝ) + (run.2 : ℝ) / 2.0 + 0.5) *
      ({} : VfhParams ℝ).binWidth = c * Real.pi := by
    rw [VfhParams.binWidth, CMath.pi_real, ← hc]
    norm_num
    ring
  rw [VfhParams.gapCenter, hcenter, wrap_mul_pi hlo hhi]

/-- Of two gaps, the one that is closer to straight ahead is chosen. The two echoes below leave
two gaps each, one on either side of the echo. -/
theorem bestGapCenter_of_runs {bins : List (Option ℝ)} {a b : ℕ × ℕ} {x y : ℝ}
    (hruns : passableRuns (bins.map ({} : VfhParams ℝ).passable) 0 none = [a, b])
    (ha : 3 ≤ a.2) (hb : 3 ≤ b.2)
    (hx : ((a.1 : ℝ) + a.2 / 2 + 1 / 2) / 30 - 1 = x) (hxlo : -1 < x) (hxhi : x ≤ 1)
    (hy : ((b.1 : ℝ) + b.2 / 2 + 1 / 2) / 30 - 1 = y) (hylo : -1 < y) (hyhi : y ≤ 1) :
    ({} : VfhParams ℝ).bestGapCenter bins 0 =
      some (if |y| < |x| then y * Real.pi else x * Real.pi) := by
  have hscore : |y * Real.pi| < |x * Real.pi| ↔ |y| < |x| := by
    rw [abs_mul, abs_mul, mul_lt_mul_iff_left₀ (abs_pos.mpr Real.pi_ne_zero)]
  have hgaps : [a, b].filter (fun run => ({} : VfhParams ℝ).minGapBins ≤ run.2) = [a, b] := by
    simp [ha, hb]
  simp only [VfhParams.bestGapCenter, hruns, hgaps, List.foldl_cons, List.foldl_nil,
    gapCenter_eq hxlo hxhi hx, gapCenter_eq hylo hyhi hy, sub_zero, wrap_mul_pi hxlo hxhi,
    wrap_mul_pi hylo hyhi, hscore]
  split_ifs <;> rfl

/-- An echo in sector 28: the gap on the left is chosen. -/
theorem bestGapCenter_left {angle : ℝ} (hbin : ({} : VfhParams ℝ).binOf angle = 28) :
    ({} : VfhParams ℝ).bestGapCenter (({} : VfhParams ℝ).histogram (singleEcho angle)) 0 =
      some (1 / 2 * Real.pi) := by
  have hruns : passableRuns ((List.replicate 60 true).set 28 false) 0 none = [(0, 28), (29, 31)] :=
    by decide
  rw [← passable_singleEcho hbin (by norm_num)] at hruns
  rw [bestGapCenter_of_runs (x := -31 / 60) (y := 1 / 2) hruns (by decide) (by decide)
    (by norm_num) (by norm_num) (by norm_num) (by norm_num) (by norm_num) (by norm_num)]
  norm_num [abs_of_pos, abs_of_neg]

/-- An echo in sector 30: the gap on the right is. -/
theorem bestGapCenter_right {angle : ℝ} (hbin : ({} : VfhParams ℝ).binOf angle = 30) :
    ({} : VfhParams ℝ).bestGapCenter (({} : VfhParams ℝ).histogram (singleEcho angle)) 0 =
      some (-29 / 60 * Real.pi) := by
  have hruns : passableRuns ((List.replicate 60 true).set 30 false) 0 none = [(0, 30), (31, 29)] :=
    by decide
  rw [← passable_singleEcho hbin (by norm_num)] at hruns
  rw [bestGapCenter_of_runs (x := -29 / 60) (y := 8 / 15) hruns (by decide) (by decide)
    (by norm_num) (by norm_num) (by norm_num) (by norm_num) (by norm_num) (by norm_num)]
  norm_num [abs_of_pos, abs_of_neg]

/-- The left gap is still passable when the echo is in sector 30. -/
theorem gapPassableAt_left {angle : ℝ} (hbin : ({} : VfhParams ℝ).binOf angle = 30) :
    ({} : VfhParams ℝ).gapPassableAt (({} : VfhParams ℝ).histogram (singleEcho angle))
      (1 / 2 * Real.pi) = true := by
  have hpi := Real.pi_pos
  have hgap : ({} : VfhParams ℝ).binOf (1 / 2 * Real.pi) = (45 : ℕ) :=
    binOf_eq ⟨by linarith, by linarith⟩ (by push_cast; linarith) (by push_cast; linarith)
  have hpassable := passable_singleEcho hbin (by norm_num)
  have hat : ∀ n : ℕ, ((List.replicate 60 true).set 30 false)[n]? = some true →
      ((({} : VfhParams ℝ).histogram (singleEcho angle))[n]?).all ({} : VfhParams ℝ).passable =
        true := by
    intro n hn
    rw [← hpassable, List.getElem?_map] at hn
    obtain ⟨bin, hbin', hpass⟩ := Option.map_eq_some_iff.mp hn
    rw [hbin']
    exact hpass
  simp only [VfhParams.gapPassableAt, hgap, List.all_cons, List.all_nil, Bool.and_true]
  rw [hat _ (by decide), hat _ (by decide), hat _ (by decide)]
  rfl

/-! ## Two goals

The robot stands at the origin, with a path of one waypoint straight ahead. One round of such a
goal leaves a gap behind, and the next such goal finds it. -/

/-- The robot begins to drive along the first axis, with one echo at `angle` and `memory` as the
remembered gap. The counterexample compares two such states. -/
structure Facing (s : MotorState ℝ) (angle : ℝ) (memory : Option ℝ) : Prop where
  exec : s.exec = some lineAhead
  enabled : s.node.vfhEnabled = true
  pose : s.node.currentPose = ⟨0, 0, 0⟩
  progress : s.node.progress = 0
  scan : s.node.guard.scan = singleEcho angle
  memory : s.node.lastGapCenter = memory

/-- What it sees. -/
noncomputable def sightAhead (angle : ℝ) : Sight ℝ where
  scan := singleEcho angle
  pose := ⟨0, 0, 0⟩
  path := lineAhead.path

/-- Straight ahead, at full speed. -/
theorem request_sightAhead (angle : ℝ) :
    ((sightAhead angle).request 0).1 = ⟨singleEcho angle, 0, 0.5⟩ := by
  have hback : lineAhead.path.getLast? = some ⟨3, 0⟩ := rfl
  simp only [Sight.request, sightAhead, track_lineAhead, PursuitParams.lookaheadBearing, hback,
    bearing_lineAhead]

/-- A round in which the robot does not arrive asks the avoidance. -/
theorem controlTick_asks {i : ControlInput ℝ} {node : MotorNode ℝ} {exec : ActiveGoal ℝ}
    (hcancel : i.canceling = false) (hmoves : ¬ Arrived node exec) :
    (controlTick i node exec).steer = answered i node exec := by
  rw [controlTick, if_neg (by simp [hcancel]), if_neg hmoves]
  split_ifs
  · rfl
  · rfl

/-- Its first round. -/
theorem Facing.controlTick {s : MotorState ℝ} {angle : ℝ} {memory : Option ℝ}
    (hf : Facing s angle memory) :
    let answer := ({} : VfhParams ℝ).steer memory (singleEcho angle) 0 0.5
    let out := Execution.controlTick (quiet 0) s.node lineAhead
    sight (quiet 0) s.node lineAhead = sightAhead angle ∧ out.steer = some answer.1 ∧
      out.node.vfhEnabled = true ∧ out.node.lastGapCenter = answer.2 := by
  have hmoves : ¬ Arrived s.node lineAhead := by
    rw [Arrived, tracked_lineAhead hf.pose hf.progress]
    norm_num
  have hsight : sight (quiet 0) s.node lineAhead = sightAhead angle := by
    simp only [sight, sightAhead, hf.pose, ← hf.scan]
    rfl
  obtain ⟨hanswer, -⟩ := steered_eq (quiet 0) s.node lineAhead
  rw [hsight, hf.progress, request_sightAhead, hf.memory] at hanswer
  have hasks := controlTick_asks (i := quiet 0) rfl hmoves
  rw [answered, if_pos hf.enabled] at hasks
  rcases controlTick_steer (i := quiet 0) lineAhead hf.enabled with
    ⟨hsteer, -⟩ | ⟨hsteer, henabled, hmemory, -⟩
  · rw [hasks] at hsteer
    cases hsteer
  · rw [hanswer] at hsteer hmemory
    exact ⟨hsight, hsteer, henabled, hmemory⟩

theorem Facing.steerings {s : MotorState ℝ} {angle : ℝ} {memory : Option ℝ}
    (hf : Facing s angle memory) :
    s.steerings [.tick (quiet 0)] =
      [(sightAhead angle, (({} : VfhParams ℝ).steer memory (singleEcho angle) 0 0.5).1)] := by
  obtain ⟨hsight, hsteer, -⟩ := hf.controlTick
  simp only [MotorState.steerings, MotorState.step, hf.exec, Option.map_some, steering, hsteer,
    hsight]
  rfl

/-- After the first round the goal ends, by itself or on request: cancelling is always possible,
and leaves the memory. -/
theorem Facing.run_end {h : List (MotorEvent ℝ)} {s : MotorState ℝ} {angle : ℝ} {memory : Option ℝ}
    (hf : Facing s angle memory) (hr : MotorRun true 0.30 0 h s) :
    ∃ h' node, MotorRun true 0.30 0 h' ⟨node, none⟩ ∧ node.vfhEnabled = true ∧
      node.lastGapCenter = (({} : VfhParams ℝ).steer memory (singleEcho angle) 0 0.5).2 := by
  obtain ⟨-, -, henabled, hmemory⟩ := hf.controlTick
  have htick : MotorStep s (.tick (quiet 0))
      ⟨(Execution.controlTick (quiet 0) s.node lineAhead).node,
        (Execution.controlTick (quiet 0) s.node lineAhead).exec⟩ := by
    rw [MotorStep, MotorState.step, hf.exec]
    rfl
  rcases hgoes : (Execution.controlTick (quiet 0) s.node lineAhead).exec with _ | exec
  · rw [hgoes] at htick
    exact ⟨_, _, hr.snoc htick, henabled, hmemory⟩
  · rw [hgoes] at htick
    have hcancel : MotorStep
        ⟨(Execution.controlTick (quiet 0) s.node lineAhead).node, some exec⟩
        (.tick { (quiet 0 : ControlInput ℝ) with canceling := true })
        ⟨(Execution.controlTick (quiet 0) s.node lineAhead).node.publishTwist .zero, none⟩ := rfl
    exact ⟨_, _, (hr.snoc htick).snoc hcancel, henabled, hmemory⟩

/-- From any time without a goal, the robot can be brought there: odometry and a scan come in,
and then the goal. -/
theorem run_facing {h : List (MotorEvent ℝ)} {node : MotorNode ℝ}
    (hr : MotorRun true 0.30 0 h ⟨node, none⟩) (henabled : node.vfhEnabled = true) (angle : ℝ) :
    ∃ h' s s', MotorRun true 0.30 0 h' s ∧ MotorStep s (.goal ⟨3, 0⟩ 0 []) s' ∧
      Facing s' angle node.lastGapCenter := by
  obtain ⟨h', hr'⟩ := run_receive hr [.odom 0 0 0 1, .scan (singleEcho angle) 0, .path []]
  have harg : Complex.arg ⟨1, 0⟩ = 0 := Complex.arg_ofReal_of_nonneg zero_le_one
  refine ⟨h', _, _, hr', rfl, rfl, henabled, ?_, rfl, rfl, rfl⟩
  simp [MotorNode.beginGoal, MotorNode.receive, MotorNode.onMessage, harg]

/-- The two echoes and their sectors. -/
theorem binOf_left : ({} : VfhParams ℝ).binOf (-0.15) = 28 := by
  have hlo := Real.pi_gt_three
  have hhi := Real.pi_lt_four
  exact binOf_eq (n := 28) ⟨by linarith, by linarith⟩ (by push_cast; linarith)
    (by push_cast; linarith)

theorem binOf_right : ({} : VfhParams ℝ).binOf 0 = 30 := by
  have hpi := Real.pi_pos
  exact binOf_eq (n := 30) ⟨by linarith, by linarith⟩ (by push_cast; linarith)
    (by push_cast; linarith)

/-- The gap that the first goal leaves behind. -/
theorem steer_left :
    (({} : VfhParams ℝ).steer none (singleEcho (-0.15)) 0 0.5).2 = some (1 / 2 * Real.pi) := by
  have hidle := not_idle_singleEcho (-0.15) (by norm_num [abs_of_neg])
  have hsteer := VfhParams.steer_of_not_idle hidle none
  rw [bestGapCenter_left binOf_left] at hsteer
  exact congrArg Prod.snd hsteer

/-- The steering for an echo straight ahead, from the gap that is chosen. -/
theorem steer_front (memory : Option ℝ) :
    (({} : VfhParams ℝ).steer memory (singleEcho 0) 0 0.5).1.steering =
      AmrFramework.clamp (2.0 * ({} : VfhParams ℝ).chooseGap
        (({} : VfhParams ℝ).histogram (singleEcho 0)) memory (-29 / 60 * Real.pi)) (-1.5) 1.5 := by
  have hidle := not_idle_singleEcho 0 (by norm_num)
  have hsteer := VfhParams.steer_of_not_idle hidle memory
  rw [bestGapCenter_right binOf_right] at hsteer
  exact congrArg (fun answer => answer.1.steering) hsteer

/-- Without a memory the robot turns to the right. -/
theorem steer_right :
    (({} : VfhParams ℝ).steer none (singleEcho 0) 0 0.5).1.steering = -1.5 := by
  have hpi := Real.pi_gt_three
  have hchosen : ({} : VfhParams ℝ).chooseGap (({} : VfhParams ℝ).histogram (singleEcho 0)) none
      (-29 / 60 * Real.pi) = -29 / 60 * Real.pi := rfl
  rw [steer_front, hchosen, AmrFramework.clamp, if_pos]
  norm_num
  linarith

/-- With the left gap in memory it turns to the left. -/
theorem steer_kept :
    (({} : VfhParams ℝ).steer (some (1 / 2 * Real.pi)) (singleEcho 0) 0 0.5).1.steering = 1.5 := by
  have hpi := Real.pi_gt_three
  have hchosen : ({} : VfhParams ℝ).chooseGap (({} : VfhParams ℝ).histogram (singleEcho 0))
      (some (1 / 2 * Real.pi)) (-29 / 60 * Real.pi) = 1 / 2 * Real.pi :=
    if_pos (gapPassableAt_left binOf_right)
  have hlo : ¬ 2.0 * (1 / 2 * Real.pi) < -1.5 := by
    norm_num
    linarith
  have hhi : 1.5 < 2.0 * (1 / 2 * Real.pi) := by
    norm_num
    linarith
  rw [steer_front, hchosen, AmrFramework.clamp, if_neg hlo, if_pos hhi]

end AmrFramework.Execution
