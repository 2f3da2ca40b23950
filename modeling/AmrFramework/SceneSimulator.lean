import AmrFramework.Runs
import AmrFramework.SceneScan

/-!
# The scene simulator

`SceneSimulatorNode` keeps the latest `/cmd_vel` and the time at which it came. A tick of its
timer moves the robot by that command, unless no command has come for longer than the timeout,
then the movers, and publishes what the lidar sees.

Commands and ticks come in any order, at times of the steady clock, in nanoseconds. When the
commands stop, so does the robot: it goes no farther than the ticks before the timeout take it
(`silence_stops`), and those are few when the timer keeps its period.
-/

namespace AmrFramework.Simulation

open Runs

universe u

variable {K : Type u}

structure Pose (K : Type u) : Type u where
  x : K
  y : K
  theta : K

/-- What a `Twist` says about the plane. -/
structure Command (K : Type u) : Type u where
  linear : K
  angular : K

/-- What `/scan` says, beside its frame. -/
structure LaserScan (K : Type u) : Type u where
  angleMin : K
  angleMax : K
  angleIncrement : K
  rangeMin : K
  rangeMax : K
  ranges : List K

/-- A message, or a tick of the timer, and the time of the clock. -/
inductive SimEvent (K : Type u) : Type u
  | cmd (c : Command K) (now : Int)
  | tick (now : Int)

/-- The time of the clock. -/
def SimEvent.now : SimEvent K → Int
  | .cmd _ now => now
  | .tick now => now

variable [Field K]

/-- The data members. -/
structure SceneSimulatorNode (K : Type u) [Field K] : Type u where
  scene : Scene K
  pose : Pose K := ⟨2.0, 0.0, 0.0⟩
  cmd : Command K := ⟨0.0, 0.0⟩
  lastCmdTime : Int := 0

/-- `kDt`. -/
def kDt : K := 0.05

variable [CMath K]

/-- `SimulatedScene::step`. -/
def Pose.step (p : Pose K) (v w dt : K) : Pose K :=
  let theta := p.theta + w * dt
  { x := p.x + v * CMath.cos theta * dt
    y := p.y + v * CMath.sin theta * dt
    theta := theta }

/-- `step_governed`; the times are milliseconds. -/
def Pose.stepGoverned (p : Pose K) (v w dt : K) (sinceCmd timeout : Int) : Pose K :=
  if timeout < sinceCmd then p.step 0.0 0.0 dt else p.step v w dt

variable [LinearOrder K]

namespace SceneSimulatorNode

variable (n : SceneSimulatorNode K)

/-- The subscription of `/cmd_vel`. -/
def onCmd (c : Command K) (now : Int) : SceneSimulatorNode K :=
  { n with cmd := c, lastCmdTime := now }

/-- `tick`: the robot, then the movers. -/
def tick (now : Int) : SceneSimulatorNode K :=
  let pose := n.pose.stepGoverned n.cmd.linear n.cmd.angular kDt
    ((now - n.lastCmdTime).tdiv 1000000) 500
  { n with pose := pose, scene := n.scene.update ⟨kDt, (pose.x, pose.y)⟩ }

/-- What a tick that leads here publishes on `/scan`; the pose goes to `/odom` and
`/amcl_pose`. -/
def scan : LaserScan K where
  angleMin := -CMath.pi
  angleMax := CMath.pi
  angleIncrement := 2.0 * CMath.pi / n.scene.params.beamCount
  rangeMin := 0.1
  rangeMax := n.scene.params.rangeMax
  ranges := n.scene.generateScan n.pose.x n.pose.y n.pose.theta

end SceneSimulatorNode

/-- The node and the clock. -/
structure SimState (K : Type u) [Field K] : Type u where
  node : SceneSimulatorNode K
  clock : Int

/-- The node takes a message or a tick; the clock is steady. Between two ticks there may be any
number of messages, of which the last one counts. -/
inductive SimStep : SimState K → SimEvent K → SimState K → Prop
  | cmd {s : SimState K} {c : Command K} {now : Int} (hclock : s.clock ≤ now) :
      SimStep s (.cmd c now) ⟨s.node.onCmd c now, now⟩
  | tick {s : SimState K} {now : Int} (hclock : s.clock ≤ now) :
      SimStep s (.tick now) ⟨s.node.tick now, now⟩

/-- The node before the first event. -/
def SimState.start (scene : Scene K) : SimState K := ⟨{ scene := scene }, 0⟩

/-! ## Silence

What the simulated robot does when commands stop coming. The timeout is compared in whole
milliseconds, so the command lives for less than 501 ms, and the number of timer ticks before
that is all the distance it can still cover. -/

/-- A tick at which the timeout since a command has not passed; whole milliseconds count. -/
def SimEvent.live (last : Int) : SimEvent K → Bool
  | .tick now => now - last < 501000000
  | .cmd _ _ => false

def SimEvent.IsTick : SimEvent K → Prop
  | .tick _ => True
  | .cmd _ _ => False

/-- How many ticks there are before the timeout. -/
def liveTicks (last : Int) (events : List (SimEvent K)) : Nat := events.countP (SimEvent.live last)

/-- Any two events, newest first, are some time apart. -/
def Spaced (period : Int) (events : List (SimEvent K)) : Prop :=
  events.Pairwise fun e e' => e'.now + period ≤ e.now

omit [Field K] [CMath K] [LinearOrder K] in
/-- The newest of some events that are apart is as late as they are many. -/
theorem Spaced.le_now {period start : Int} {e : SimEvent K} {events : List (SimEvent K)}
    (h : Spaced period (e :: events)) (hstart : ∀ e' ∈ e :: events, start ≤ e'.now) :
    start + events.length * period ≤ e.now := by
  induction events generalizing e with
  | nil => simpa using hstart e (List.mem_singleton_self e)
  | cons e' events ih =>
    obtain ⟨hnewest, hrest⟩ := List.pairwise_cons.mp h
    have hlate := ih hrest fun f hf => hstart f (List.mem_cons_of_mem _ hf)
    have hgap := hnewest e' List.mem_cons_self
    rw [List.length_cons]
    push_cast
    linarith

omit [Field K] [CMath K] [LinearOrder K] in
/-- A timer that keeps its period of 50 ms does not tick often before the timeout. -/
theorem liveTicks_le {last : Int} {events : List (SimEvent K)} (h : Spaced 50000000 events)
    (hlast : ∀ e ∈ events, last ≤ e.now) : liveTicks last events ≤ 11 := by
  rw [liveTicks, List.countP_eq_length_filter]
  have hlive : ∀ e ∈ events.filter (SimEvent.live last), e ∈ events ∧ e.live last = true :=
    fun e he => List.mem_filter.mp he
  have hspaced : Spaced 50000000 (events.filter (SimEvent.live last)) :=
    h.sublist List.filter_sublist
  generalize events.filter (SimEvent.live last) = lives at hlive hspaced
  cases lives with
  | nil => exact Nat.zero_le _
  | cons e lives =>
    have hlate := hspaced.le_now fun e' he' => hlast e' (hlive e' he').1
    obtain ⟨-, hbefore⟩ := hlive e List.mem_cons_self
    cases e with
    | cmd c now => cases hbefore
    | tick now =>
      simp only [SimEvent.live, SimEvent.now, decide_eq_true_eq] at hbefore hlate
      rw [List.length_cons]
      omega

/-- The timeout in milliseconds, and in nanoseconds. -/
theorem timeout_iff (since : Int) : 500 < since.tdiv 1000000 ↔ 501000000 ≤ since := by
  obtain hpos | hneg := le_total 0 since
  · rw [Int.tdiv_eq_ediv_of_nonneg hpos]
    omega
  · have hmirror := Int.tdiv_nonneg (Int.neg_nonneg_of_nonpos hneg) (by decide : (0 : Int) ≤ 1000000)
    rw [Int.neg_tdiv] at hmirror
    omega

section Step

variable [IsStrictOrderedRing K]

omit [LinearOrder K] [IsStrictOrderedRing K] in
/-- A zero command moves nothing. -/
theorem Pose.step_zero (p : Pose K) (dt : K) (hzero : (0.0 : K) = 0) :
    p.step 0.0 0.0 dt = p := by
  simp only [Pose.step, hzero, zero_mul, add_zero]

/-- After the timeout the robot stands still. -/
theorem SceneSimulatorNode.tick_pose (n : SceneSimulatorNode K) (now : Int) :
    (n.tick now).pose =
      if now - n.lastCmdTime < 501000000 then n.pose.step n.cmd.linear n.cmd.angular kDt
      else n.pose := by
  simp only [tick, Pose.stepGoverned, timeout_iff]
  split_ifs with hlate hlive hlive
  · exact absurd hlive (not_lt.mpr hlate)
  · exact n.pose.step_zero _ (by norm_num)
  · rfl
  · exact absurd (not_lt.mp hlive) hlate

end Step

/-- The clock has got to the latest command. -/
theorem run_lastCmdTime_le {scene : Scene K} {h : List (SimEvent K)} {s : SimState K}
    (hr : Run SimStep (.start scene) h s) : s.node.lastCmdTime ≤ s.clock :=
  hr.invariant (I := fun _ s => s.node.lastCmdTime ≤ s.clock) le_rfl
    fun _ _ _ _ hle hstep => by
      cases hstep with
      | cmd hclock => exact le_rfl
      | tick hclock => exact hle.trans hclock

/-- Events come after the state that a run starts from. -/
theorem run_clock_le {s s' : SimState K} {h : List (SimEvent K)} (hr : Run SimStep s h s') :
    s.clock ≤ s'.clock ∧ ∀ e ∈ h, s.clock ≤ e.now :=
  hr.invariant (I := fun h s' => s.clock ≤ s'.clock ∧ ∀ e ∈ h, s.clock ≤ e.now)
    ⟨le_rfl, List.forall_mem_nil _⟩
    fun _ _ _ _ ⟨hle, hevents⟩ hstep => by
      cases hstep with
      | cmd hclock =>
        exact ⟨hle.trans hclock, List.forall_mem_cons.mpr ⟨hle.trans hclock, hevents⟩⟩
      | tick hclock =>
        exact ⟨hle.trans hclock, List.forall_mem_cons.mpr ⟨hle.trans hclock, hevents⟩⟩

/-- How far a pose is from another. -/
def Pose.gap (p p' : Pose K) : K := hypot (p'.x - p.x) (p'.y - p.y)

/-- A step is as long as the speed says. -/
theorem Pose.gap_step (p p' : Pose ℝ) (v w dt : ℝ) :
    p.gap (p'.step v w dt) ≤ p.gap p' + |v * dt| := by
  have hlen := speed_polar (v * dt) (p'.theta + w * dt)
  have htriangle := hypot_add_le (p'.x - p.x) (p'.y - p.y)
    (v * dt * CMath.cos (p'.theta + w * dt)) (v * dt * CMath.sin (p'.theta + w * dt))
  rw [hlen] at htriangle
  refine (congrArg₂ hypot ?_ ?_).trans_le htriangle
  · simp only [Pose.step]
    ring
  · simp only [Pose.step]
    ring

/-- The pose after some ticks with one command. -/
def Pose.steps (p : Pose K) (c : Command K) (n : Nat) : Pose K :=
  (fun p => p.step c.linear c.angular kDt)^[n] p

theorem Pose.steps_succ (p : Pose ℝ) (c : Command ℝ) (n : Nat) :
    p.steps c (n + 1) = (p.steps c n).step c.linear c.angular kDt :=
  Function.iterate_succ_apply' _ n p

/-- The robot turns exactly as far as the ticks and the command say. -/
theorem Pose.theta_steps (p : Pose ℝ) (c : Command ℝ) (n : Nat) :
    (p.steps c n).theta = p.theta + n * (c.angular * kDt) := by
  induction n with
  | zero => simp [steps]
  | succ n ih =>
    rw [steps_succ, Pose.step, ih]
    push_cast
    ring

/-- How far it gets depends on how it turns meanwhile. -/
theorem Pose.gap_steps (p : Pose ℝ) (c : Command ℝ) (n : Nat) :
    p.gap (p.steps c n) ≤ n * |c.linear * kDt| := by
  induction n with
  | zero => simp [steps, gap, hypot]
  | succ n ih =>
    rw [steps_succ, Nat.cast_succ, add_one_mul]
    exact (Pose.gap_step _ _ _ _ _).trans (add_le_add_left ih _)

/-- What a run of ticks from a state has done so far: the pose is that of as many steps as there
were ticks before the timeout. -/
structure Coasted (s : SimState ℝ) (quiet : List (SimEvent ℝ)) (s' : SimState ℝ) : Prop where
  cmd : s'.node.cmd = s.node.cmd
  lastCmdTime : s'.node.lastCmdTime = s.node.lastCmdTime
  pose : s'.node.pose = s.node.pose.steps s.node.cmd (liveTicks s.node.lastCmdTime quiet)

theorem Coasted.refl (s : SimState ℝ) : Coasted s [] s where
  cmd := rfl
  lastCmdTime := rfl
  pose := rfl

theorem Coasted.tick {s s' : SimState ℝ} {quiet : List (SimEvent ℝ)} (h : Coasted s quiet s')
    (now : Int) : Coasted s (.tick now :: quiet) ⟨s'.node.tick now, now⟩ := by
  have hpose := s'.node.tick_pose now
  rw [h.cmd, h.lastCmdTime, h.pose] at hpose
  refine ⟨h.cmd, h.lastCmdTime, hpose.trans ?_⟩
  by_cases hlive : now - s.node.lastCmdTime < 501000000
  · have hcount : liveTicks s.node.lastCmdTime (.tick now :: quiet) =
        liveTicks s.node.lastCmdTime quiet + 1 :=
      List.countP_cons_of_pos (decide_eq_true hlive)
    rw [if_pos hlive, hcount, Pose.steps_succ]
  · have hcount : liveTicks s.node.lastCmdTime (.tick now :: quiet) =
        liveTicks s.node.lastCmdTime quiet :=
      List.countP_cons_of_neg fun hdec => hlive (of_decide_eq_true hdec)
    rw [if_neg hlive, hcount]

theorem run_coasted {s s' : SimState ℝ} {quiet : List (SimEvent ℝ)}
    (hr : Run SimStep s quiet s') (hticks : ∀ e ∈ quiet, e.IsTick) : Coasted s quiet s' := by
  induction hr with
  | start => exact .refl s
  | snoc hr hstep ih =>
    obtain ⟨hnew, hold⟩ := List.forall_mem_cons.mp hticks
    cases hstep with
    | cmd hclock => exact hnew.elim
    | tick hclock => exact (ih hold).tick _

/-- **The robot stops when the commands do.** From any state that a run leads to, while no
command comes, the pose is the one that the latest command leads to in the ticks before the
timeout: the robot turns exactly that much, and gets at most that far. Those ticks are at most
eleven when the timer keeps its period. -/
theorem silence_stops {scene : Scene ℝ} {h quiet : List (SimEvent ℝ)} {s s' : SimState ℝ}
    (hr : Run SimStep (.start scene) h s) (hquiet : Run SimStep s quiet s')
    (hticks : ∀ e ∈ quiet, e.IsTick) :
    s'.node.pose = s.node.pose.steps s.node.cmd (liveTicks s.node.lastCmdTime quiet) ∧
      s'.node.pose.theta =
        s.node.pose.theta + liveTicks s.node.lastCmdTime quiet * (s.node.cmd.angular * kDt) ∧
      s.node.pose.gap s'.node.pose ≤
        liveTicks s.node.lastCmdTime quiet * |s.node.cmd.linear * kDt| ∧
      (Spaced 50000000 quiet → liveTicks s.node.lastCmdTime quiet ≤ 11) := by
  have hpose := (run_coasted hquiet hticks).pose
  refine ⟨hpose, ?_, ?_, fun hspaced => liveTicks_le hspaced fun e he => ?_⟩
  · rw [hpose, Pose.theta_steps]
  · rw [hpose]
    exact Pose.gap_steps _ _ _
  · exact (run_lastCmdTime_le hr).trans ((run_clock_le hquiet).2 e he)

/-- One command, a tick that it moves the robot in, and one after the timeout: the robot is
five centimetres from where it was, straight ahead. -/
theorem silence_stops_twoTicks :
    ∃ s s' : SimState ℝ,
      Run SimStep (.start (Scene.make {} {} sameBox northDraw)) [.cmd ⟨1, 0⟩ 10] s ∧
        Run SimStep s [.tick 600000000, .tick 50000000] s' ∧
        s'.node.pose = ⟨2.05, 0, 0⟩ ∧ s.node.pose.gap s'.node.pose ≤ 0.05 := by
  have hstart : (SimState.start (Scene.make ({} : ScanParams ℝ) {} sameBox northDraw)).clock ≤ 10 :=
    by norm_num [SimState.start]
  have hcmd := Run.start.snoc (SimStep.cmd (c := ⟨1, 0⟩) hstart)
  have hlive (n : SceneSimulatorNode ℝ) :
      SimStep ⟨n, 10⟩ (.tick 50000000) ⟨n.tick 50000000, 50000000⟩ := .tick (by norm_num)
  have hlate (n : SceneSimulatorNode ℝ) :
      SimStep ⟨n, 50000000⟩ (.tick 600000000) ⟨n.tick 600000000, 600000000⟩ := .tick (by norm_num)
  have hquiet (n : SceneSimulatorNode ℝ) := (Run.start.snoc (hlive n)).snoc (hlate _)
  refine ⟨_, _, hcmd, hquiet _, ?_⟩
  obtain ⟨hpose, -, hgap, -⟩ := silence_stops hcmd (hquiet _) (by simp [SimEvent.IsTick])
  have hcount : liveTicks 10 ([.tick 600000000, .tick 50000000] : List (SimEvent ℝ)) = 1 := rfl
  constructor
  · refine hpose.trans ?_
    simp only [SceneSimulatorNode.onCmd, SimState.start, hcount, Pose.steps, kDt, Pose.step,
      Function.iterate_one, Pose.mk.injEq]
    norm_num [CMath.cos, CMath.sin]
  · refine hgap.trans ?_
    simp only [SceneSimulatorNode.onCmd, hcount, kDt]
    norm_num

end AmrFramework.Simulation
