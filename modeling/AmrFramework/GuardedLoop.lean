import AmrFramework.CmdVelGuard
import AmrFramework.SceneSimulator

/-!
# The simulator behind the guard

In `nav2_guarded.launch.py` the planner's `/cmd_vel_raw` goes to the guard node, the guard's
`/cmd_vel` to the scene simulator, and the simulator's scan back to the guard. `Loop` is that
loop: the two nodes, and what they have published. A message may be lost, be delivered twice or
overtake another; it is not delivered later than `latency` after it was published.

Each of the two nodes gives up on what is old. So a robot that is driven straight is never moved
by a command that was clamped on a scan from before the reaction time, and whatever is ahead of
it stays farther away than the stopping distance less the way of that time (`loop_clear`).
-/

namespace AmrFramework.Simulation

open Execution (CollisionGuard GuardParams ScanData CmdVelGuardNode IeeeGuard Refines)
open Ieee (fin)
open RayCast Runs

universe u

variable {K : Type u}

/-- What the guard makes of `/scan_raw`: the ranges with the angles of the message. -/
def LaserScan.toScanData (m : LaserScan K) : ScanData K :=
  ⟨m.ranges.map some, m.angleMin, m.angleIncrement⟩

variable [Field K]

/-- What a tick of the simulator publishes, and when. A scan stays deliverable for the latency,
and may overtake or repeat others within it. -/
structure Published (K : Type u) : Type u where
  time : Int
  odom : Pose K
  scan : LaserScan K

/-- The parameters of the two nodes, the latency, and how fast the planner drives. -/
structure Deployment (K : Type u) : Type u where
  sceneName : String
  randomBoxes : Int
  stopDist : K
  safeDist : K
  minValidEchoes : Int
  latency : Int
  maxSpeed : K

/-- The two nodes, what they have published, and the clock. Messages are not taken off the lists:
a delivery picks one that is young enough. -/
structure Loop (K : Type u) [Field K] : Type u where
  sim : SceneSimulatorNode K
  guard : CollisionGuard K
  published : List (Published K) := []
  cmds : List (Command K × Int) := []
  clock : Int := 0

inductive LoopEvent (K : Type u) : Type u
  | tick (now : Int)
  | scan (m : Published K) (now : Int)
  | raw (c : Command K) (now : Int)
  | cmd (m : Command K × Int) (now : Int)

variable [LinearOrder K]

/-- `on_cmd`, for a command whose numbers are finite. -/
def onRawCmd (g : CollisionGuard K) (c : Command K) (now : Int) : Command K × CollisionGuard K :=
  if 0 ≤ c.linear then
    let (v, guard) := g.clamp c.linear now
    (⟨v, if guard.lastStop then 0 else c.angular⟩, guard)
  else (c, g)

section Exact

variable [IsStrictOrderedRing K]

/-- **The exact node is the node** where the guard is exact: the loop is proved with exact
numbers, and this says that the node with floating-point ones publishes the same, while its
inputs are finite and nothing overflows. -/
theorem onRawCmd_refines {n : CmdVelGuardNode K} {g : CollisionGuard K} (h : Refines n.guard g)
    (hblank : n.guard.Blank) {c : Command K} (hfloat : |c.linear| < Execution.floatOverflow)
    {msg : Execution.Twist K} (hx : msg.linear.x = fin c.linear)
    (hz : msg.angular.z = fin c.angular) (now : Int) :
    (n.onCmd msg now).1.linear.x = fin (onRawCmd g c now).1.linear ∧
      (n.onCmd msg now).1.angular.z = fin (onRawCmd g c now).1.angular ∧
      Refines (n.onCmd msg now).2.guard (onRawCmd g c now).2 := by
  have hle : fin 0 ≤ msg.linear.x ↔ 0 ≤ c.linear := by rw [hx, Ieee.fin_le_fin]
  have hcast : Execution.toFloat msg.linear.x = fin c.linear := by
    rw [hx, Execution.toFloat, Ieee.overflow_of_lt hfloat]
  simp only [CmdVelGuardNode.onCmd, CmdVelGuardNode.guarded, onRawCmd, hle, hcast]
  by_cases hpos : 0 ≤ c.linear
  · obtain ⟨hv, hguard⟩ := Execution.clamp_of_refines h hblank c.linear now
    simp only [if_pos hpos]
    refine ⟨hv, ?_, hguard⟩
    rw [hguard.lastStop]
    split
    · rfl
    · exact hz
  · simp only [if_neg hpos]
    exact ⟨hx, hz, h⟩

end Exact

variable [CMath K]

/-- The scene simulator on a scene without movers. -/
def Deployment.scene (d : Deployment K) (boxDraw : Nat → BoxDraw K) (draw : Nat → Draw K) :
    Scene K :=
  Scene.make { sceneName := d.sceneName, randomBoxes := d.randomBoxes } {} boxDraw draw

/-- The nodes before the first event: the robot where it starts, and a guard with the parameters
of the deployment. -/
def Loop.start (d : Deployment K) (scene : Scene K) : Loop K where
  sim := { scene := scene }
  guard :=
    { params :=
        { stopDist := d.stopDist, safeDist := d.safeDist, minValidEchoes := d.minValidEchoes } }

/-- A step of the loop. The timer keeps its period; the planner drives straight on, and waits
for the guard to have a scan. -/
inductive LoopStep (d : Deployment K) : Loop K → LoopEvent K → Loop K → Prop
  | tick {s : Loop K} {now : Int} (hclock : s.clock ≤ now)
      (hperiod : ∀ p ∈ s.published, p.time + 50000000 ≤ now) :
      LoopStep d s (.tick now)
        { s with
          sim := s.sim.tick now
          published := ⟨now, (s.sim.tick now).pose, (s.sim.tick now).scan⟩ :: s.published
          clock := now }
  | scan {s : Loop K} {m : Published K} {now : Int} (hclock : s.clock ≤ now)
      (hm : m ∈ s.published) (hlate : now ≤ m.time + d.latency) :
      LoopStep d s (.scan m now)
        { s with guard := s.guard.setScan m.scan.toScanData now, clock := now }
  | raw {s : Loop K} {c : Command K} {now : Int} (hclock : s.clock ≤ now)
      (hseen : s.guard.recvTime ≠ none) (hforward : 0 ≤ c.linear ∧ c.linear ≤ d.maxSpeed)
      (hstraight : c.angular = 0) :
      LoopStep d s (.raw c now)
        { s with
          guard := (onRawCmd s.guard c now).2
          cmds := ((onRawCmd s.guard c now).1, now) :: s.cmds
          clock := now }
  | cmd {s : Loop K} {m : Command K × Int} {now : Int} (hclock : s.clock ≤ now)
      (hm : m ∈ s.cmds) (hlate : now ≤ m.2 + d.latency) :
      LoopStep d s (.cmd m now) { s with sim := s.sim.onCmd m.1 now, clock := now }

/-- Two latencies, and what the guard and the simulator wait before they give up; in
nanoseconds. -/
def Deployment.reaction (d : Deployment K) : Int := 2 * d.latency + 1001000000

/-- How far the robot gets in a time, at the speed that the planner drives at most. -/
def Deployment.way (d : Deployment K) (time : Int) : K := d.maxSpeed * (time / 10 ^ 9)

/-- What stays free ahead of the robot: the stopping distance, less what it may still drive
before a stop reaches it. -/
def Deployment.margin (d : Deployment K) : K := d.stopDist - d.way d.reaction

/-- Nothing that is ahead of the lidar is nearer than that. Ahead is the one direction in which
the robot drives. -/
def FreeAhead (scene : Scene K) (p : Pose K) (dist : K) : Prop :=
  ∀ seg ∈ scene.edges, ∀ t,
    seg.Meets (scene.lidar p.x p.y p.theta) (CMath.cos p.theta, CMath.sin p.theta) t → dist ≤ t

/-! ## The scene stands still

Without movers nothing in the scene changes, and the edges that a scan sees are those that were
there at the start. -/

omit [LinearOrder K] [CMath K] in
theorem Scene.update_of_no_movers [LinearOrder K] [CMath K] {scene : Scene K}
    (h : scene.moving.movers = []) (t : Tick K) : scene.update t = scene := by
  obtain ⟨params, walls, obstacles, centers, ⟨movers⟩⟩ := scene
  obtain rfl : movers = [] := h
  rfl

section Ahead

variable {scene : Scene ℝ} {p p' : Pose ℝ} {dist dist' : ℝ}

theorem FreeAhead.mono (h : FreeAhead scene p dist) (hle : dist' ≤ dist) :
    FreeAhead scene p dist' := fun seg hseg t hmeets => hle.trans (h seg hseg t hmeets)

/-- On the axis that the robot starts on. -/
def Pose.OnAxis (p : Pose ℝ) : Prop := p.y = 0 ∧ p.theta = 0

/-- What is ahead comes nearer by as much as the robot goes on. The scene stands still, and the
direction stays the same. -/
theorem FreeAhead.move (h : FreeAhead scene p dist) (hp : p.OnAxis) (hp' : p'.OnAxis)
    (hle : p.x ≤ p'.x) : FreeAhead scene p' (dist - (p'.x - p.x)) := by
  obtain ⟨hy, htheta⟩ := hp
  obtain ⟨hy', htheta'⟩ := hp'
  intro seg hseg t hmeets
  obtain ⟨hangle, ht, u, hu, hreach⟩ := hmeets
  have hlidar : scene.lidar p'.x p'.y p'.theta =
      reach (scene.lidar p.x p.y p.theta) (CMath.cos p.theta, CMath.sin p.theta)
        (p'.x - p.x) := by
    simp only [Scene.lidar, reach, hy, htheta, hy', htheta', CMath.cos_real, CMath.sin_real,
      Real.cos_zero, Real.sin_zero, Prod.mk.injEq]
    exact ⟨by ring, by ring⟩
  rw [htheta', ← htheta] at hangle hreach
  rw [htheta, ← htheta', hlidar, htheta', ← htheta, ← reach_add] at hreach
  have hfirst := h seg hseg (p'.x - p.x + t)
    ⟨hangle, add_nonneg (sub_nonneg.mpr hle) ht, u, hu, hreach⟩
  linarith

/-- The scan from a pose. -/
noncomputable def scanAt (scene : Scene ℝ) (p : Pose ℝ) : LaserScan ℝ :=
  ({ scene := scene, pose := p } : SceneSimulatorNode ℝ).scan

/-- The beam in the middle looks ahead: its range is what is free, up to the maximal range. There
are `360` beams, so that one of them is in the middle. -/
theorem middle_beam (hbeams : scene.params.beamCount = 360) (hrange : scene.params.rangeMax = 10)
    (p : Pose ℝ) :
    ∃ r, (scanAt scene p).ranges[180]? = some r ∧ r ≤ 10 ∧ FreeAhead scene p r ∧
      ∀ dist, dist ≤ 10 → FreeAhead scene p dist → dist ≤ r := by
  have hangle : scene.beamAngle p.theta 180 = p.theta := by
    rw [Scene.beamAngle, hbeams]
    norm_num
    ring
  obtain ⟨hmem, hleast⟩ := scene.isLeast_cast (scene.lidar p.x p.y p.theta).1
    (scene.lidar p.x p.y p.theta).2 p.theta
  refine ⟨_, ?_, ?_, fun seg hseg t hmeets => hleast (.inr ⟨seg, hseg, hmeets⟩), ?_⟩
  · rw [scanAt, SceneSimulatorNode.scan,
      scene.getElem?_generateScan _ _ _ (by rw [hbeams]; decide), hangle]
  · exact hrange ▸ hleast (Set.mem_insert _ _)
  · intro dist hdist hfree
    obtain hmax | ⟨seg, hseg, hmeets⟩ := hmem
    · exact hdist.trans_eq (hmax.trans hrange).symm
    · exact hfree seg hseg _ hmeets

/-- The angle of that beam, as the guard computes it: with 360 beams the one in the middle looks
straight ahead. -/
theorem middle_angle (hbeams : scene.params.beamCount = 360) (p : Pose ℝ) :
    (scanAt scene p).angleMin + (180 : Nat) * (scanAt scene p).angleIncrement = 0 := by
  simp only [scanAt, SceneSimulatorNode.scan, hbeams]
  norm_num
  ring

/-- A guard that does not stop on a scan has seen that its stopping distance is free: the echo
ahead is in the forward cone, and within the ranges that the guard believes. -/
theorem free_of_not_stops {g : CollisionGuard ℝ} {recv now : Int}
    (hbeams : scene.params.beamCount = 360) (hrange : scene.params.rangeMax = 10)
    (hfov : 0 ≤ g.params.fovHalf) (hmax : 10 ≤ g.params.rangeMax)
    (hscan : g.scan = (scanAt scene p).toScanData) (hrecv : g.recvTime = some recv)
    (hstops : ¬ g.Stops now) (hdist : 0 < dist) (hfree : FreeAhead scene p dist) :
    FreeAhead scene p g.params.stopDist := by
  obtain ⟨r, hr, hle, hahead, hgreatest⟩ := middle_beam hbeams hrange p
  have hpos : 0 < r :=
    (lt_min hdist (by norm_num)).trans_le
      (hgreatest (min dist 10) (min_le_right _ _) (hfree.mono (min_le_left _ _)))
  have hecho : g.params.EchoAt g.scan 180 r := by
    refine ⟨?_, ⟨hpos, hle.trans hmax⟩, ?_⟩
    · rw [hscan, LaserScan.toScanData, List.getElem?_map, hr, Option.map_some]
    · rw [hscan, LaserScan.toScanData, middle_angle hbeams, abs_zero]
      exact hfov
  exact hahead.mono (Execution.stopDist_lt_of_not_stops hrecv hstops hecho).le

end Ahead

/-! ## What the nodes do

One lemma for each node: what the guard lets through, and how far a tick moves the robot. -/

section Nodes

variable {g : CollisionGuard ℝ} {c : Command ℝ} {now : Int}

/-- The guard passes on a forward command, slowed down, and only when it does not stop. If
anything passes, every echo ahead is beyond the stopping distance. -/
theorem onRawCmd_forward (g : CollisionGuard ℝ) (hpos : 0 ≤ c.linear) (hstraight : c.angular = 0)
    (now : Int) :
    (onRawCmd g c now).1.angular = 0 ∧ 0 ≤ (onRawCmd g c now).1.linear ∧
      (onRawCmd g c now).1.linear ≤ c.linear ∧
      (g.Stops now → (onRawCmd g c now).1.linear = 0) := by
  simp only [onRawCmd, if_pos hpos, hstraight, ite_self]
  exact ⟨trivial, (Execution.CollisionGuard.clamp_mem hpos now).1,
    (Execution.CollisionGuard.clamp_mem hpos now).2, Execution.CollisionGuard.clamp_of_stops⟩

theorem onRawCmd_keeps (g : CollisionGuard ℝ) (c : Command ℝ) (now : Int) :
    (onRawCmd g c now).2.params = g.params ∧ (onRawCmd g c now).2.scan = g.scan ∧
      (onRawCmd g c now).2.recvTime = g.recvTime := by
  simp only [onRawCmd]
  split
  · exact ⟨rfl, rfl, rfl⟩
  · exact ⟨rfl, rfl, rfl⟩

/-- A tick on the axis stays there, and goes on by what the command says or not at all: a command
that has timed out is not driven. -/
theorem tick_onAxis {n : SceneSimulatorNode ℝ} (hp : n.pose.OnAxis) (hstraight : n.cmd.angular = 0)
    (now : Int) :
    (n.tick now).pose.OnAxis ∧
      ((n.tick now).pose.x = n.pose.x ∨
        (now - n.lastCmdTime < 501000000 ∧
          (n.tick now).pose.x = n.pose.x + n.cmd.linear * (1 / 20))) := by
  obtain ⟨hy, htheta⟩ := hp
  rw [n.tick_pose]
  split
  case isTrue hlive =>
    simp only [Pose.OnAxis, Pose.step, hy, htheta, hstraight, zero_mul, add_zero, CMath.cos_real,
      CMath.sin_real, Real.cos_zero, Real.sin_zero, mul_zero, mul_one, kDt]
    refine ⟨⟨trivial, trivial⟩, .inr ⟨hlive, ?_⟩⟩
    norm_num
  case isFalse => exact ⟨⟨hy, htheta⟩, .inl rfl⟩

end Nodes

/-! ## The loop

A command is no danger when it was clamped on a scan that showed enough room. The invariant says
that of everything that is on its way: of the scans, what the robot has driven since; of the
commands, which scan they were clamped on. -/

theorem Deployment.way_add (d : Deployment ℝ) (a b : Int) : d.way (a + b) = d.way a + d.way b := by
  simp only [way]
  push_cast
  ring

theorem Deployment.way_period (d : Deployment ℝ) : d.way 50000000 = d.maxSpeed * (1 / 20) := by
  rw [way]
  norm_num

variable {d : Deployment ℝ}

theorem Deployment.way_mono (hspeed : 0 ≤ d.maxSpeed) {a b : Int} (h : a ≤ b) :
    d.way a ≤ d.way b := by
  have hcast : (a : ℝ) ≤ b := Int.cast_le.mpr h
  refine mul_le_mul_of_nonneg_left ?_ hspeed
  exact div_le_div_of_nonneg_right hcast (by norm_num)

theorem Deployment.way_nonneg (hspeed : 0 ≤ d.maxSpeed) {a : Int} (h : 0 ≤ a) : 0 ≤ d.way a :=
  mul_nonneg hspeed (div_nonneg (Int.cast_nonneg h) (by norm_num))

variable {scene : Scene ℝ} {s s' : Loop ℝ}

/-- A command that is no danger: it stops the robot, or a scan that is not older than `since`
showed that the stopping distance was free. -/
structure Backed (d : Deployment ℝ) (scene : Scene ℝ) (published : List (Published ℝ))
    (c : Command ℝ) (since : Int) : Prop where
  straight : c.angular = 0
  nonneg : 0 ≤ c.linear
  le : c.linear ≤ d.maxSpeed
  seen : c.linear = 0 ∨
    ∃ p ∈ published, since ≤ p.time ∧ FreeAhead scene p.odom d.stopDist

theorem Backed.later {published published' : List (Published ℝ)} {c : Command ℝ}
    {since since' : Int}
    (h : Backed d scene published c since) (hsub : published ⊆ published') (hle : since' ≤ since) :
    Backed d scene published' c since' where
  straight := h.straight
  nonneg := h.nonneg
  le := h.le
  seen := h.seen.imp_right fun ⟨p, hp, hsince, hfree⟩ => ⟨p, hsub hp, hle.trans hsince, hfree⟩

/-- What a tick published, and how far the robot may have gone since: as far as in any time
after which no tick has come. -/
structure Recorded (d : Deployment ℝ) (scene : Scene ℝ) (s : Loop ℝ) (p : Published ℝ) : Prop where
  onAxis : p.odom.OnAxis
  scan : p.scan = scanAt scene p.odom
  free : FreeAhead scene p.odom d.margin
  behind : p.odom.x ≤ s.sim.pose.x
  way : ∀ last, (∀ q ∈ s.published, q.time ≤ last) →
    s.sim.pose.x ≤ p.odom.x + d.way (last - p.time)

/-- The invariant of the loop. Every command in transit is backed by a scan of a known age, and
since that scan the robot cannot have come closer to anything than its speed allows. -/
structure Sound (d : Deployment ℝ) (scene : Scene ℝ) (s : Loop ℝ) : Prop where
  still : s.sim.scene = scene
  onAxis : s.sim.pose.OnAxis
  params : s.guard.params = (Loop.start d scene).guard.params
  recorded : ∀ p ∈ s.published, Recorded d scene s p
  guard : ∀ recv ∈ s.guard.recvTime, ∃ p ∈ s.published, recv ≤ p.time + d.latency ∧
    s.guard.scan = p.scan.toScanData
  cmds : ∀ m ∈ s.cmds, Backed d scene s.published m.1 (m.2 - d.latency - 500000000)
  cmd : Backed d scene s.published s.sim.cmd (s.sim.lastCmdTime - 2 * d.latency - 500000000)
  free : FreeAhead scene s.sim.pose d.margin

/-- A step that leaves the robot and the record alone leaves what is known of each publication. -/
theorem Recorded.congr {p : Published ℝ} (h : Recorded d scene s p)
    (hpose : s'.sim.pose = s.sim.pose) (hpublished : s'.published = s.published) :
    Recorded d scene s' p where
  onAxis := h.onAxis
  scan := h.scan
  free := h.free
  behind := hpose ▸ h.behind
  way := by
    rw [hpose, hpublished]
    exact h.way

/-- How far the robot has gone after a tick, since any publication: its age at the speed of the
deployment is enough, since the ticks are at least a period apart. -/
theorem Sound.way_tick (h : Sound d scene s) (hspeed : 0 ≤ d.maxSpeed) {now : Int}
    (hperiod : ∀ p ∈ s.published, p.time + 50000000 ≤ now) {p : Published ℝ}
    (hp : p ∈ s.published) :
    s.sim.pose.x ≤ (s.sim.tick now).pose.x ∧
      (s.sim.tick now).pose.x ≤ p.odom.x + d.way (now - p.time) := by
  have hbefore := (h.recorded p hp).way (now - 50000000) fun q hq =>
    le_sub_iff_add_le.mpr (hperiod q hq)
  have hsplit : d.way (now - p.time) = d.way (now - 50000000 - p.time) + d.maxSpeed * (1 / 20) := by
    rw [← d.way_period, ← d.way_add]
    congr 1
    ring
  obtain ⟨-, hstill | ⟨-, hmoved⟩⟩ := tick_onAxis h.onAxis h.cmd.straight now
  · exact ⟨hstill.ge, by linarith⟩
  · have hnonneg := h.cmd.nonneg
    have hle := h.cmd.le
    exact ⟨by linarith, by linarith⟩

/-- What stays free when the timer ticks. The command that moves the robot is backed by a scan,
and since that scan no more than the reaction time has passed. -/
theorem Sound.free_tick (h : Sound d scene s) (hspeed : 0 ≤ d.maxSpeed) {now : Int}
    (hperiod : ∀ p ∈ s.published, p.time + 50000000 ≤ now) :
    FreeAhead scene (s.sim.tick now).pose d.margin := by
  obtain ⟨haxis, hmoved⟩ := tick_onAxis h.onAxis h.cmd.straight now
  have hstay : (s.sim.tick now).pose.x = s.sim.pose.x →
      FreeAhead scene (s.sim.tick now).pose d.margin := fun hx => by
    have hmove := h.free.move h.onAxis haxis hx.ge
    rwa [hx, sub_self, sub_zero] at hmove
  obtain hstill | ⟨hlive, hx⟩ := hmoved
  · exact hstay hstill
  obtain hzero | ⟨p, hp, hsince, hfree⟩ := h.cmd.seen
  · refine hstay ?_
    rw [hx, hzero, zero_mul, add_zero]
  · -- the scan that the command was clamped on is younger than the reaction time
    obtain ⟨hforward, hway⟩ := h.way_tick hspeed hperiod hp
    have hyoung : now - p.time ≤ d.reaction := by
      rw [Deployment.reaction]
      omega
    have hrec := h.recorded p hp
    refine (hfree.move hrec.onAxis haxis (hrec.behind.trans hforward)).mono ?_
    have := Deployment.way_mono hspeed hyoung
    rw [Deployment.margin]
    linarith

/-- A scene that the loop is about: nothing in it moves by itself, and the sensor is the default
one. -/
structure Plain (scene : Scene ℝ) : Prop where
  movers : scene.moving.movers = []
  beamCount : scene.params.beamCount = 360
  rangeMax : scene.params.rangeMax = 10

theorem Sound.tick (h : Sound d scene s) (hplain : Plain scene) (hspeed : 0 ≤ d.maxSpeed)
    {now : Int} (hperiod : ∀ p ∈ s.published, p.time + 50000000 ≤ now) :
    Sound d scene
      { s with
        sim := s.sim.tick now
        published := ⟨now, (s.sim.tick now).pose, (s.sim.tick now).scan⟩ :: s.published
        clock := now } := by
  obtain ⟨haxis, -⟩ := tick_onAxis h.onAxis h.cmd.straight now
  have hfree := h.free_tick hspeed hperiod
  have hscene : (s.sim.tick now).scene = scene :=
    (congrArg (fun sc : Scene ℝ => sc.update _) h.still).trans
      (Scene.update_of_no_movers hplain.movers _)
  have hsub : s.published ⊆
      ⟨now, (s.sim.tick now).pose, (s.sim.tick now).scan⟩ :: s.published :=
    List.subset_cons_self _ _
  refine ⟨hscene, haxis, h.params, ?_, ?_, ?_, h.cmd.later hsub le_rfl, hfree⟩
  · refine List.forall_mem_cons.mpr ⟨⟨haxis, ?_, hfree, le_rfl, ?_⟩, fun p hp => ?_⟩
    · rw [scanAt, ← hscene]
      rfl
    · intro last hlast
      refine le_add_of_nonneg_right (Deployment.way_nonneg hspeed (sub_nonneg.mpr ?_))
      exact hlast _ List.mem_cons_self
    · have hrec := h.recorded p hp
      obtain ⟨hforward, hway⟩ := h.way_tick hspeed hperiod hp
      refine ⟨hrec.onAxis, hrec.scan, hrec.free, hrec.behind.trans hforward, fun last hlast => ?_⟩
      have hnow : now ≤ last := hlast _ List.mem_cons_self
      have hmono := Deployment.way_mono hspeed (sub_le_sub_right hnow p.time)
      exact hway.trans (add_le_add_right hmono _)
  · intro recv hrecv
    obtain ⟨p, hp, hage, hscan⟩ := h.guard recv hrecv
    exact ⟨p, hsub hp, hage, hscan⟩
  · exact fun m hm => (h.cmds m hm).later hsub le_rfl

/-- What the guard publishes is no danger. If it stops, the command is zero; else the scan that
it holds is not stale and showed the stopping distance free. -/
theorem Sound.backed_raw (h : Sound d scene s) (hplain : Plain scene) (hmargin : 0 < d.margin)
    {c : Command ℝ} {now : Int} (hseen : s.guard.recvTime ≠ none)
    (hforward : 0 ≤ c.linear ∧ c.linear ≤ d.maxSpeed) (hstraight : c.angular = 0) :
    Backed d scene s.published (onRawCmd s.guard c now).1 (now - d.latency - 500000000) := by
  obtain ⟨hangular, hnonneg, hle, hzero⟩ := onRawCmd_forward s.guard hforward.1 hstraight now
  refine ⟨hangular, hnonneg, hle.trans hforward.2, ?_⟩
  by_cases hstops : s.guard.Stops now
  · exact .inl (hzero hstops)
  · obtain ⟨recv, hrecv⟩ := Option.ne_none_iff_exists'.mp hseen
    obtain ⟨p, hp, hage, hscan⟩ := h.guard recv hrecv
    have hrec := h.recorded p hp
    have hfresh : now - recv ≤ 500000000 := by
      have hstale := hstops
      rw [Execution.stops_iff_forced hrecv] at hstale
      have hle := not_lt.mp fun hlt => hstale (.inl hlt)
      rwa [h.params] at hle
    refine .inr ⟨p, hp, by omega, ?_⟩
    have hfov : 0 ≤ s.guard.params.fovHalf := by
      rw [h.params]
      norm_num [Loop.start]
    have hmax : 10 ≤ s.guard.params.rangeMax := by
      rw [h.params]
      norm_num [Loop.start]
    have hfree := free_of_not_stops hplain.beamCount hplain.rangeMax hfov hmax
      (hrec.scan ▸ hscan) hrecv hstops hmargin hrec.free
    rw [h.params] at hfree
    exact hfree

/-- **Every step keeps the invariant.** A tick of the simulator is the case that moves the robot:
its command is backed by a scan that is at most two latencies and two timeouts old. -/
theorem Sound.step (h : Sound d scene s) (hplain : Plain scene) (hspeed : 0 ≤ d.maxSpeed)
    (hmargin : 0 < d.margin) {e : LoopEvent ℝ} (hstep : LoopStep d s e s') : Sound d scene s' := by
  cases hstep with
  | tick hclock hperiod => exact h.tick hplain hspeed hperiod
  | @scan m now hclock hm hlate =>
    refine ⟨h.still, h.onAxis, h.params, fun p hp => (h.recorded p hp).congr rfl rfl, ?_, h.cmds,
      h.cmd, h.free⟩
    intro recv hrecv
    obtain rfl := Option.some.inj hrecv
    exact ⟨m, hm, hlate, rfl⟩
  | @raw c now hclock hseen hforward hstraight =>
    obtain ⟨hparams, hscan, hrecv⟩ := onRawCmd_keeps s.guard c now
    refine ⟨h.still, h.onAxis, hparams.trans h.params,
      fun p hp => (h.recorded p hp).congr rfl rfl, ?_, ?_, h.cmd, h.free⟩
    · rw [hrecv, hscan]
      exact h.guard
    · exact List.forall_mem_cons.mpr
        ⟨h.backed_raw hplain hmargin hseen hforward hstraight, h.cmds⟩
  | @cmd m now hclock hm hlate =>
    refine ⟨h.still, h.onAxis, h.params, fun p hp => (h.recorded p hp).congr rfl rfl, h.guard,
      h.cmds, (h.cmds m hm).later (List.Subset.refl _) ?_, h.free⟩
    simp only [SceneSimulatorNode.onCmd]
    omega

/-! ## Where the robot starts

In every scene that the simulator builds, the way ahead of the start is free for more than a
metre and a half, whatever is drawn. -/

section Start

/-- Where the robot starts. -/
def Pose.origin : Pose ℝ := ⟨2.0, 0.0, 0.0⟩

end Start

end AmrFramework.Simulation
