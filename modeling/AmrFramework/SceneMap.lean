import AmrFramework.DecisionGrid
import AmrFramework.FieldOfView
import AmrFramework.SceneSimulator

/-!
# The map of the scene

The simulator publishes its pose and its scan at every tick, on two topics. The decision node
keeps the latest of each that it received; a call of `on_perception` reads both, one after the
other, and traces the scan from the pose. So the two need not be of the same tick, and the map can
show an obstacle where there is none.

It shows it near an edge that the scene had at the time of the scan: how near depends on how many
ticks the pose and the scan were apart, and on how fast the robot was told to drive and to turn
(`map_near`).

* the runs of both nodes, with messages that are late, repeated or lost (`MapStep`);
* how far apart two snapshots of the simulator are (`Snapshot.Near`);
* where the grid marks the hit of one beam (`hit_near`);
* what has been published and received in a run (`run_snapshots`, `run_received`).
-/

namespace AmrFramework.Simulation

open Runs RayCast Planning OccupancyGrid

universe u

variable {K : Type u} [Field K]

/-- The node after a tick, with the number of the tick. -/
structure Snapshot (K : Type u) [Field K] : Type u where
  number : Nat
  node : SceneSimulatorNode K

section Source

variable [CMath K] [LinearOrder K]

/-- `setRPY`: the entries `z` and `w`, the others are zero. -/
def Snapshot.orientation (m : Snapshot K) : K × K :=
  (CMath.sin (m.node.pose.theta * 0.5), CMath.cos (m.node.pose.theta * 0.5))

/-- `current_theta_` after `on_amcl_pose`. -/
def Snapshot.yaw (m : Snapshot K) : K :=
  let (z, w) := m.orientation
  CMath.atan2 (2.0 * (w * z)) (1.0 - 2.0 * (z * z))

/-- What a call of `on_perception` works on, if it has read this pose and this scan: without a
pose the robot is at the origin. -/
def callOn (staticObstacles : Bool) (pose scan : Option (Snapshot K))
    (objects : List (PerceivedObject K)) : PerceptionCall K where
  staticObstacles := staticObstacles
  rx := (pose.map fun m => m.node.pose.x).getD 0
  ry := (pose.map fun m => m.node.pose.y).getD 0
  rtheta := (pose.map Snapshot.yaw).getD 0
  hasScan := scan.isSome
  ranges := (scan.map fun m => m.node.scan.ranges.map some).getD []
  angleMin := (scan.map fun m => m.node.scan.angleMin).getD 0
  angleInc := (scan.map fun m => m.node.scan.angleIncrement).getD 0
  objects := objects

/-- The simulator, and the decision node. Of the latter it keeps what it has received and
written; what it plans has no effect on the grid. -/
structure SceneMap (K : Type u) [Field K] : Type u where
  sim : SimState K
  ticks : Nat := 0
  published : List (Snapshot K) := []
  /-- received on `/amcl_pose` -/
  poses : List (Snapshot K) := []
  /-- received on `/scan` -/
  scans : List (Snapshot K) := []
  calls : List (PerceptionCall K) := []
  /-- the writes to the grid, oldest first -/
  writes : List (GridOp K) := []

inductive MapEvent (K : Type u) [Field K] : Type u
  | sim (e : SimEvent K)
  | pose (m : Snapshot K)
  | scan (m : Snapshot K)
  | call (staticObstacles : Bool) (pose scan : Option (Snapshot K))
      (objects : List (PerceivedObject K))
  | write (op : GridOp K)

/-- The nodes before the first event. -/
def SceneMap.start (scene : Scene K) : SceneMap K := { sim := .start scene }

/-- What the simulator publishes after an event. -/
def SceneMap.publish (s : SceneMap K) (sim : SimState K) : SimEvent K → SceneMap K
  | .cmd _ _ => { s with sim := sim }
  | .tick _ =>
    { s with
      sim := sim
      ticks := s.ticks + 1
      published := ⟨s.ticks + 1, sim.node⟩ :: s.published }

variable [FloorRing K] [CExp K]

/-- The two nodes and the messages. The callbacks of the decision node run at the same time: what
a call has read is something that was received, and its writes come in between those of others. -/
inductive MapStep : SceneMap K → MapEvent K → SceneMap K → Prop
  | sim {s : SceneMap K} {e : SimEvent K} {sim : SimState K} : SimStep s.sim e sim →
      MapStep s (.sim e) (s.publish sim e)
  | pose {s : SceneMap K} {m : Snapshot K} : m ∈ s.published →
      MapStep s (.pose m) { s with poses := m :: s.poses }
  | scan {s : SceneMap K} {m : Snapshot K} : m ∈ s.published →
      MapStep s (.scan m) { s with scans := m :: s.scans }
  | call {s : SceneMap K} {pose scan : Option (Snapshot K)} (staticObstacles : Bool)
      (objects : List (PerceivedObject K)) :
      (∀ m ∈ pose, m ∈ s.poses) → (∀ m ∈ scan, m ∈ s.scans) →
      MapStep s (.call staticObstacles pose scan objects)
        { s with calls := callOn staticObstacles pose scan objects :: s.calls }
  | write {s : SceneMap K} {c : PerceptionCall K} {op : GridOp K} : c ∈ s.calls →
      op ∈ c.gridOps gridUpdater → MapStep s (.write op) { s with writes := s.writes ++ [op] }

end Source

/-! ## How far apart two snapshots are

A tick moves the robot by one step of the command that it holds, so the distance of two snapshots
is bounded by the number of ticks between them. -/

section Near

variable {v w : ℝ} {a b c : Snapshot ℝ} {s s' : SceneMap ℝ}

/-- As far as the robot can drive and turn in the ticks between them, at the speeds that the
commands are limited to. -/
structure Snapshot.Near (v w : ℝ) (a b : Snapshot ℝ) : Prop where
  gap : a.node.pose.gap b.node.pose ≤ |(b.number : ℝ) - a.number| * (v * kDt)
  turn : |b.node.pose.theta - a.node.pose.theta| ≤ |(b.number : ℝ) - a.number| * (w * kDt)

theorem Snapshot.Near.refl (v w : ℝ) (a : Snapshot ℝ) : a.Near v w a where
  gap := by simp [Pose.gap, hypot]
  turn := by simp

theorem Snapshot.Near.symm (h : a.Near v w b) : b.Near v w a where
  gap := by
    have hgap := h.gap
    rw [Pose.gap, hypot_sub_comm (b.node.pose.x, b.node.pose.y) (a.node.pose.x, a.node.pose.y),
      abs_sub_comm] at hgap
    exact hgap
  turn := by
    rw [abs_sub_comm, abs_sub_comm (a.number : ℝ)]
    exact h.turn

/-- A tick moves the robot by one step at most. -/
theorem Snapshot.Near.tick {n : Nat} {node : SceneSimulatorNode ℝ} (h : a.Near v w ⟨n, node⟩)
    (hn : a.number ≤ n) (hv : |node.cmd.linear| ≤ v) (hw : |node.cmd.angular| ≤ w) (now : Int) :
    a.Near v w ⟨n + 1, node.tick now⟩ := by
  have hdt : (0 : ℝ) < kDt := by
    norm_num [kDt]
  have hcount : |((n + 1 : Nat) : ℝ) - a.number| = |(n : ℝ) - a.number| + 1 := by
    have hle : (a.number : ℝ) ≤ n := Nat.cast_le.mpr hn
    rw [abs_of_nonneg (sub_nonneg.mpr hle), Nat.cast_succ, abs_of_nonneg (by linarith)]
    ring
  have hdrive : |node.cmd.linear * kDt| ≤ v * kDt := by
    rw [abs_mul, abs_of_pos hdt]
    exact mul_le_mul_of_nonneg_right hv hdt.le
  have hturn : |node.cmd.angular * kDt| ≤ w * kDt := by
    rw [abs_mul, abs_of_pos hdt]
    exact mul_le_mul_of_nonneg_right hw hdt.le
  have hpose := node.tick_pose now
  refine ⟨?_, ?_⟩
  · have hgap := h.gap
    simp only [hcount, add_mul, one_mul, hpose]
    split_ifs
    · exact (Pose.gap_step _ _ _ _ _).trans (add_le_add hgap hdrive)
    · linarith [(abs_nonneg _).trans hdrive]
  · have hbefore := h.turn
    simp only [hcount, add_mul, one_mul, hpose]
    split_ifs
    · have hadd := abs_add_le (node.pose.theta - a.node.pose.theta) (node.cmd.angular * kDt)
      have hstep : (node.pose.step node.cmd.linear node.cmd.angular kDt).theta -
          a.node.pose.theta = node.pose.theta - a.node.pose.theta + node.cmd.angular * kDt := by
        rw [Pose.step]
        ring
      rw [hstep]
      exact hadd.trans (add_le_add hbefore hturn)
    · linarith [(abs_nonneg _).trans hturn]

end Near

/-! ## One beam

The error of a hit is the error of the pose that it is traced from: as far as the lidar is off,
and as far as the beam is turned at that distance. -/

section Beam

open Real (pi cos sin)

variable {v w : ℝ} {a b : Snapshot ℝ}

theorem Snapshot.yaw_eq (m : Snapshot ℝ) : m.yaw = wrap m.node.pose.theta := by
  have hdouble : m.node.pose.theta = 2 * (m.node.pose.theta * 0.5) := by
    ring
  rw [wrap, hdouble]
  simp only [yaw, orientation, CMath.sin_real, CMath.cos_real, Real.sin_two_mul]
  refine congrArg₂ _ ?_ ?_
  · norm_num
    ring
  · rw [Real.cos_two_mul']
    norm_num
    linarith [Real.sin_sq_add_cos_sq (m.node.pose.theta * (1 / 2))]

/-- The wrapped yaw points where the robot does. -/
theorem cos_add_yaw (m : Snapshot ℝ) (angle : ℝ) :
    cos (angle + m.yaw) = cos (angle + m.node.pose.theta) ∧
      sin (angle + m.yaw) = sin (angle + m.node.pose.theta) := by
  obtain ⟨turns, hwrap⟩ := Execution.exists_wrap_eq m.node.pose.theta
  have hyaw : angle + m.yaw = angle + m.node.pose.theta + turns * (2 * pi) := by
    rw [m.yaw_eq, hwrap]
    ring
  rw [hyaw]
  exact ⟨Real.cos_add_int_mul_two_pi _ _, Real.sin_add_int_mul_two_pi _ _⟩

/-- A chord is no longer than its arc. -/
theorem hypot_chord_le {r : ℝ} (hr : 0 ≤ r) (α β : ℝ) :
    hypot (r * cos α - r * cos β) (r * sin α - r * sin β) ≤ r * |α - β| := by
  have hcos := Real.one_sub_sq_div_two_le_cos (x := α - β)
  rw [Real.cos_sub] at hcos
  have hsq := Real.sin_sq_add_cos_sq α
  have hsq' := Real.sin_sq_add_cos_sq β
  refine Real.sqrt_le_iff.mpr ⟨mul_nonneg hr (abs_nonneg _), ?_⟩
  rw [mul_pow, sq_abs]
  nlinarith [sq_nonneg r]

/-- What is `angle` off the heading, at a distance, is seen from two poses. The lidar is in front
of the robot, so a turn moves it, too. -/
theorem hypot_sight_le (p p' : Pose ℝ) {offset r : ℝ} (hoffset : 0 ≤ offset) (hr : 0 ≤ r)
    (angle : ℝ) :
    hypot
        (p'.x + offset * cos p'.theta + r * cos (angle + p'.theta) -
          (p.x + offset * cos p.theta + r * cos (angle + p.theta)))
        (p'.y + offset * sin p'.theta + r * sin (angle + p'.theta) -
          (p.y + offset * sin p.theta + r * sin (angle + p.theta))) ≤
      p.gap p' + (offset + r) * |p'.theta - p.theta| := by
  have hlidar := hypot_chord_le hoffset p'.theta p.theta
  have hhit := hypot_chord_le hr (angle + p'.theta) (angle + p.theta)
  rw [add_sub_add_left_eq_sub] at hhit
  have hboth := hypot_add_le (offset * cos p'.theta - offset * cos p.theta)
    (offset * sin p'.theta - offset * sin p.theta)
    (r * cos (angle + p'.theta) - r * cos (angle + p.theta))
    (r * sin (angle + p'.theta) - r * sin (angle + p.theta))
  have hall := hypot_add_le (p'.x - p.x) (p'.y - p.y)
    (offset * cos p'.theta - offset * cos p.theta +
      (r * cos (angle + p'.theta) - r * cos (angle + p.theta)))
    (offset * sin p'.theta - offset * sin p.theta +
      (r * sin (angle + p'.theta) - r * sin (angle + p.theta)))
  calc _ = _ := congrArg₂ hypot (by ring) (by ring)
    _ ≤ _ := hall
    _ ≤ p.gap p' + (offset * |p'.theta - p.theta| + r * |p'.theta - p.theta|) :=
      add_le_add le_rfl (hboth.trans (add_le_add hlidar hhit))
    _ = _ := by ring

/-- A range below the maximum is the distance of an edge. -/
theorem Snapshot.exists_edge (m : Snapshot ℝ) {i : Nat} {r : ℝ}
    (hr : m.node.scan.ranges[i]? = some r) (hlt : r < m.node.scene.params.rangeMax) :
    ∃ seg ∈ m.node.scene.edges, ∃ u ∈ Set.Icc (0 : ℝ) 1,
      reach (m.node.scene.lidar m.node.pose.x m.node.pose.y m.node.pose.theta)
        (m.node.scene.beam m.node.pose.theta i) r = reach seg.start seg.dir u := by
  have hi : i < m.node.scene.params.beamCount := by
    have hlen := (List.getElem?_eq_some_iff.mp hr).1
    simpa [SceneSimulatorNode.scan, Scene.generateScan] using hlen
  simp only [SceneSimulatorNode.scan, Scene.getElem?_generateScan _ _ _ _ hi,
    Option.some.injEq] at hr
  obtain hfar | ⟨seg, hseg, -, -, u, hu, hreach⟩ := (m.node.scene.isLeast_cast _ _ _).1
  · exact absurd (hr.symm.trans hfar) hlt.ne
  · rw [hr] at hreach
    exact ⟨seg, hseg, u, hu, hreach⟩

/-- **Where the grid marks the hit of a beam** of one snapshot, traced from the pose of another:
near an edge that stood there. -/
theorem hit_near (hrange : 6.5 < a.node.scene.params.rangeMax)
    (hoffset : a.node.scene.params.lidarOffsetX = 0.25) {objects : List (PerceivedObject ℝ)}
    {static : Bool} {frame : RayFrame ℝ} {ranges : List (Option ℝ)}
    (hop : GridOp.raytrace frame ranges ∈ (callOn static (some b) (some a) objects).scanOps)
    {beam : Option ℝ × Nat} (hbeam : beam ∈ ranges.zipIdx) {p : ℝ × ℝ}
    (hp : ({} : ScanToGrid ℝ).hit frame beam = some p) :
    ∃ seg ∈ a.node.scene.edges, ∃ u ∈ Set.Icc (0 : ℝ) 1,
      hypot (p.1 - (reach seg.start seg.dir u).1) (p.2 - (reach seg.start seg.dir u).2) ≤
        a.node.pose.gap b.node.pose + 6.75 * |b.node.pose.theta - a.node.pose.theta| := by
  rw [PerceptionCall.scanOps] at hop
  split_ifs at hop
  · obtain ⟨rfl, rfl⟩ := GridOp.raytrace.inj (List.mem_singleton.mp hop)
    obtain ⟨range, i⟩ := beam
    rw [List.mem_zipIdx_iff_getElem?] at hbeam
    simp only [callOn, Option.map_some, Option.getD_some, List.getElem?_map,
      Option.map_eq_some_iff] at hbeam
    obtain ⟨r, hr, rfl⟩ := hbeam
    simp only [ScanToGrid.hit] at hp
    split_ifs at hp with hvalid
    · obtain ⟨hpos, hmax⟩ := not_or.mp hvalid
      obtain ⟨seg, hseg, u, hu, hmeet⟩ := a.exists_edge hr (not_lt.mp hmax |>.trans_lt hrange)
      let angle := a.node.scan.angleMin + i * a.node.scan.angleIncrement
      have hlidar : (0 : ℝ) ≤ 0.25 := by
        norm_num
      have hsight := hypot_sight_le a.node.pose b.node.pose hlidar (not_le.mp hpos).le angle
      have hfar : (0.25 + r) * |b.node.pose.theta - a.node.pose.theta| ≤
          6.75 * |b.node.pose.theta - a.node.pose.theta| :=
        mul_le_mul_of_nonneg_right (by linarith [not_lt.mp hmax]) (abs_nonneg _)
      refine ⟨seg, hseg, u, hu, ?_⟩
      obtain rfl := Option.some.inj hp
      rw [← hmeet]
      refine le_trans (le_of_eq ?_) (hsight.trans (add_le_add le_rfl hfar))
      -- the beam of the scan and the ray of the grid are at the same angle off the heading
      obtain ⟨hcos, hsin⟩ := cos_add_yaw b angle
      obtain ⟨hcos₀, hsin₀⟩ := cos_add_yaw b 0
      have hangle : a.node.scene.beamAngle a.node.pose.theta i = angle + a.node.pose.theta := by
        rw [Scene.beamAngle, sub_add_eq_add_sub, sub_eq_neg_add]
        exact (add_assoc _ _ _).symm.trans (add_right_comm _ _ _)
      simp only [zero_add] at hcos₀ hsin₀
      simp only [reach, Scene.beam, Scene.lidar, hoffset, hangle, callOn, Option.map_some,
        Option.getD_some, CMath.cos_real, CMath.sin_real, hcos₀, hsin₀, angle] at hcos hsin ⊢
      rw [hcos, hsin]
  · exact absurd hop List.not_mem_nil

end Beam

/-! ## The runs

Messages are late, repeated or lost, but they are what was published. So a pose and a scan of a
call are two snapshots, and everything that is written comes from a call. -/

section Runs

variable {v w : ℝ} {p : ScanParams ℝ} {h : List (MapEvent ℝ)} {s s' : SceneMap ℝ} {e : MapEvent ℝ}

/-- The robot is told to drive and to turn no faster than this. -/
def Driven (v w : ℝ) (_ : SceneMap ℝ) : MapEvent ℝ → Prop
  | .sim (.cmd c _) => |c.linear| ≤ v ∧ |c.angular| ≤ w
  | _ => True

/-- What has been published so far. Any two snapshots are near each other, by the number of ticks
between them. -/
structure Snapshots (v w : ℝ) (p : ScanParams ℝ) (s : SceneMap ℝ) : Prop where
  cmd : |s.sim.node.cmd.linear| ≤ v ∧ |s.sim.node.cmd.angular| ≤ w
  params : s.sim.node.scene.params = p
  numbered : ∀ a ∈ s.published, a.number ≤ s.ticks ∧ a.node.scene.params = p
  current : ∀ a ∈ s.published, a.Near v w ⟨s.ticks, s.sim.node⟩
  near : ∀ a ∈ s.published, ∀ b ∈ s.published, a.Near v w b

theorem Snapshots.publish {e : SimEvent ℝ} {sim : SimState ℝ} (hs : Snapshots v w p s)
    (hok : Driven v w s (.sim e)) (hstep : SimStep s.sim e sim) :
    Snapshots v w p (s.publish sim e) := by
  cases hstep with
  | cmd hclock => exact ⟨hok, hs.params, hs.numbered, fun a ha => ⟨(hs.current a ha).gap,
      (hs.current a ha).turn⟩, hs.near⟩
  | @tick now hclock =>
    have hnear : ∀ a ∈ s.published, a.Near v w ⟨s.ticks + 1, s.sim.node.tick now⟩ :=
      fun a ha => (hs.current a ha).tick (hs.numbered a ha).1 hs.cmd.1 hs.cmd.2 now
    refine ⟨hs.cmd, hs.params, ?_, ?_, ?_⟩
    · exact List.forall_mem_cons.mpr ⟨⟨le_rfl, hs.params⟩, fun a ha =>
        ⟨(hs.numbered a ha).1.trans (Nat.le_succ _), (hs.numbered a ha).2⟩⟩
    · exact List.forall_mem_cons.mpr ⟨.refl v w _, hnear⟩
    · exact List.forall_mem_cons.mpr ⟨List.forall_mem_cons.mpr ⟨.refl v w _, fun b hb =>
        (hnear b hb).symm⟩, fun a ha => List.forall_mem_cons.mpr ⟨hnear a ha, hs.near a ha⟩⟩

theorem run_snapshots {scene : Scene ℝ} (hv : 0 ≤ v) (hw : 0 ≤ w)
    (hr : Run (only (Driven v w) MapStep) (.start scene) h s) : Snapshots v w scene.params s :=
  hr.invariant (I := fun _ s => Snapshots v w scene.params s)
    ⟨by norm_num [SceneMap.start, SimState.start, hv, hw], rfl, List.forall_mem_nil _,
      List.forall_mem_nil _, List.forall_mem_nil _⟩
    fun _ _ _ _ hs ⟨hok, hstep⟩ => by
      cases hstep with
      | sim hsim => exact hs.publish hok hsim
      | pose hm => exact ⟨hs.cmd, hs.params, hs.numbered, hs.current, hs.near⟩
      | scan hm => exact ⟨hs.cmd, hs.params, hs.numbered, hs.current, hs.near⟩
      | call static objects hpose hscan =>
        exact ⟨hs.cmd, hs.params, hs.numbered, hs.current, hs.near⟩
      | write hc hop => exact ⟨hs.cmd, hs.params, hs.numbered, hs.current, hs.near⟩

/-- What is written comes from a call, and a call works on what was published: the two copies it
takes need not be from the same tick. -/
structure Received (h : List (MapEvent ℝ)) (s : SceneMap ℝ) : Prop where
  poses : ∀ m ∈ s.poses, m ∈ s.published
  scans : ∀ m ∈ s.scans, m ∈ s.published
  calls : ∀ c ∈ s.calls, ∃ static pose scan objects, .call static pose scan objects ∈ h ∧
    c = callOn static pose scan objects ∧ (∀ m ∈ pose, m ∈ s.published) ∧
      ∀ m ∈ scan, m ∈ s.published
  writes : ∀ op ∈ s.writes, ∃ c ∈ s.calls, op ∈ c.gridOps gridUpdater

/-- Nothing that was published is taken back. -/
theorem MapStep.published_subset (hstep : MapStep s e s') : s.published ⊆ s'.published := by
  cases hstep with
  | @sim e sim hsim =>
    cases hsim with
    | cmd => exact List.Subset.refl _
    | tick => exact List.subset_cons_self _ _
  | pose hm => exact List.Subset.refl _
  | scan hm => exact List.Subset.refl _
  | call static objects hpose hscan => exact List.Subset.refl _
  | write hc hop => exact List.Subset.refl _

theorem Received.step (hs : Received h s) (hstep : MapStep s e s') : Received (e :: h) s' := by
  have hsub := hstep.published_subset
  have hcalls : ∀ c ∈ s.calls, ∃ static pose scan objects,
      .call static pose scan objects ∈ e :: h ∧ c = callOn static pose scan objects ∧
        (∀ m ∈ pose, m ∈ s'.published) ∧ ∀ m ∈ scan, m ∈ s'.published := by
    intro c hc
    obtain ⟨static, pose, scan, objects, hcall, heq, hpose, hscan⟩ := hs.calls c hc
    exact ⟨static, pose, scan, objects, List.mem_cons_of_mem _ hcall, heq,
      fun m hm => hsub (hpose m hm), fun m hm => hsub (hscan m hm)⟩
  have hposes : ∀ m ∈ s.poses, m ∈ s'.published := fun m hm => hsub (hs.poses m hm)
  have hscans : ∀ m ∈ s.scans, m ∈ s'.published := fun m hm => hsub (hs.scans m hm)
  cases hstep with
  | @sim e sim hsim =>
    cases hsim with
    | cmd => exact ⟨hposes, hscans, hcalls, hs.writes⟩
    | tick => exact ⟨hposes, hscans, hcalls, hs.writes⟩
  | pose hm => exact ⟨List.forall_mem_cons.mpr ⟨hm, hposes⟩, hscans, hcalls, hs.writes⟩
  | scan hm => exact ⟨hposes, List.forall_mem_cons.mpr ⟨hm, hscans⟩, hcalls, hs.writes⟩
  | call static objects hpose hscan =>
    refine ⟨hposes, hscans, List.forall_mem_cons.mpr ⟨?_, hcalls⟩, fun op hop => ?_⟩
    · exact ⟨static, _, _, objects, List.mem_cons_self .., rfl,
        fun m hm => hposes m (hpose m hm), fun m hm => hscans m (hscan m hm)⟩
    · obtain ⟨c, hc, hmem⟩ := hs.writes op hop
      exact ⟨c, List.mem_cons_of_mem _ hc, hmem⟩
  | write hc hop =>
    refine ⟨hposes, hscans, hcalls, List.forall_mem_append.mpr ⟨hs.writes, ?_⟩⟩
    exact fun op' hop' => ⟨_, hc, List.mem_singleton.mp hop' ▸ hop⟩

theorem run_received {scene : Scene ℝ}
    (hr : Run (only (Driven v w) MapStep) (.start scene) h s) : Received h s :=
  hr.invariant (I := Received)
    ⟨List.forall_mem_nil _, List.forall_mem_nil _, List.forall_mem_nil _, List.forall_mem_nil _⟩
    fun _ _ _ _ hs hstep => hs.step hstep.2

/-- A cell of the grid with a point that is near an edge of a snapshot's scene. -/
def Snapshot.EdgeNear (m : Snapshot ℝ) (dist : ℝ) (c : Cell) : Prop :=
  ∃ seg ∈ m.node.scene.edges, ∃ u ∈ Set.Icc (0 : ℝ) 1, ∃ wx wy,
    worldToGrid demoGrid wx wy = c ∧
      hypot (wx - (reach seg.start seg.dir u).1) (wy - (reach seg.start seg.dir u).2) ≤ dist

/-- What a write of a call marks. -/
theorem marks_cases {static : Bool} {pose scan : Option (Snapshot ℝ)}
    {objects : List (PerceivedObject ℝ)} {op : GridOp ℝ} {c : Cell}
    (hop : op ∈ (callOn static pose scan objects).gridOps gridUpdater)
    (hmark : op.Marks {} demoGrid c)
    (hscan : ∀ a ∈ scan, 6.5 < a.node.scene.params.rangeMax ∧
      a.node.scene.params.lidarOffsetX = 0.25) :
    (∃ wx wy, op = .inflate wx wy ∧ worldToGrid demoGrid wx wy = c) ∨
      ∃ a ∈ scan, ∀ b ∈ pose, a.EdgeNear
        (a.node.pose.gap b.node.pose + 6.75 * |b.node.pose.theta - a.node.pose.theta|) c := by
  cases op with
  | inflate wx wy => exact .inl ⟨wx, wy, rfl, hmark⟩
  | raytrace frame ranges =>
    right
    have hscanned : GridOp.raytrace frame ranges ∈ (callOn static pose scan objects).scanOps := by
      rcases List.mem_append.mp hop with hop | hop
      · rcases List.mem_append.mp hop with hop | hop
        · split at hop
          · simp [injectStaticObstacles] at hop
          · exact absurd hop List.not_mem_nil
        · exact hop
      · simp [PerceptionCall.objectOps] at hop
    obtain ⟨beam, hbeam, p, hp, hcell⟩ := hmark
    cases scan with
    | none => simp [PerceptionCall.scanOps, callOn] at hscanned
    | some a =>
      refine ⟨a, rfl, fun b hb => ?_⟩
      obtain rfl : pose = some b := hb
      obtain ⟨hrange, hoffset⟩ := hscan a rfl
      obtain ⟨seg, hseg, u, hu, hnear⟩ := hit_near hrange hoffset hscanned hbeam hp
      exact ⟨seg, hseg, u, hu, p.1, p.2, hcell, hnear⟩

/-- **An obstacle on the map** is the centre of something that was inflated, or it was near an
edge of the scene when a scan was taken: as near as the robot can drive and turn in the ticks
between that scan and the pose that the call traced it from. Only a call that has no pose yet
marks anything else. -/
theorem map_near (sceneName : String) (randomBoxes : Int) (q : SceneParams ℝ)
    (boxDraw : Nat → BoxDraw ℝ) (draw : Nat → Draw ℝ) (hv : 0 ≤ v) (hw : 0 ≤ w)
    (hr : Run (only (Driven v w) MapStep)
      (.start (.make { sceneName := sceneName, randomBoxes := randomBoxes } q boxDraw draw)) h s) :
    ∃ grid, runOps gridUpdater {} demoGrid s.writes = some grid ∧
      ∀ c, demoGrid.Inside c → grid.costAt c = lethal →
        (∃ wx wy, .inflate wx wy ∈ s.writes ∧ worldToGrid demoGrid wx wy = c) ∨
        (∃ static a objects, .call static none (some a) objects ∈ h) ∨
        ∃ static a b objects, .call static (some b) (some a) objects ∈ h ∧
          a.EdgeNear (|(b.number : ℝ) - a.number| * (0.05 * (v + 6.75 * w))) c := by
  have hsnap := run_snapshots hv hw hr
  have hrecv := run_received hr
  obtain ⟨grid, hrun, hobstacle⟩ :=
    runOps_obstacle {} gridUpdater_decays demoGrid_wellFormed demoGrid_free s.writes
  refine ⟨grid, hrun, fun c hc hlethal => ?_⟩
  obtain ⟨op, hop, hmark⟩ := hobstacle c hc hlethal
  obtain ⟨_, hcall, hmem⟩ := hrecv.writes op hop
  obtain ⟨static, pose, scan, objects, hevent, rfl, hpose, hscan⟩ := hrecv.calls _ hcall
  have hparams : ∀ a ∈ scan, 6.5 < a.node.scene.params.rangeMax ∧
      a.node.scene.params.lidarOffsetX = 0.25 := by
    intro a ha
    rw [(hsnap.numbered a (hscan a ha)).2]
    norm_num [Scene.make]
  obtain ⟨wx, wy, rfl, hcell⟩ | ⟨a, ha, hnear⟩ := marks_cases hmem hmark hparams
  · exact .inl ⟨wx, wy, hop, hcell⟩
  · obtain rfl : scan = some a := ha
    cases pose with
    | none => exact .inr (.inl ⟨static, a, objects, hevent⟩)
    | some b =>
      obtain ⟨seg, hseg, u, hu, wx, wy, hcell, hdist⟩ := hnear b rfl
      have hapart := hsnap.near a (hscan a rfl) b (hpose b rfl)
      refine .inr (.inr ⟨static, a, b, objects, hevent, seg, hseg, u, hu, wx, wy, hcell,
        hdist.trans ?_⟩)
      calc _ ≤ |(b.number : ℝ) - a.number| * (v * kDt) +
            6.75 * (|(b.number : ℝ) - a.number| * (w * kDt)) := by
            gcongr
            · exact hapart.gap
            · exact hapart.turn
        _ = _ := by
            rw [kDt]
            ring

/-- A tick, and a call that has the pose and the scan of it: its hits are on the edges. -/
theorem map_near_oneTick :
    ∃ (h : List (MapEvent ℝ)) (s : SceneMap ℝ) (m : Snapshot ℝ),
      Run (only (Driven 1 1) MapStep)
        (.start (.make { sceneName := "rack_3c", randomBoxes := 0 } {} sameBox northDraw)) h s ∧
      m ∈ s.published ∧ s.writes.length = 1 ∧
      ∃ grid, runOps gridUpdater {} demoGrid s.writes = some grid ∧
        ∀ c, demoGrid.Inside c → grid.costAt c = lethal → m.EdgeNear 0 c := by
  let n : SceneSimulatorNode ℝ :=
    { scene := .make { sceneName := "rack_3c", randomBoxes := 0 } {} sameBox northDraw }
  let m : Snapshot ℝ := ⟨1, n.tick 50000000⟩
  let call := callOn false (some m) (some m) []
  let op : GridOp ℝ :=
    .raytrace ⟨call.angleMin, call.angleInc, call.rx + 0.25 * CMath.cos call.rtheta,
      call.ry + 0.25 * CMath.sin call.rtheta, call.rtheta⟩ call.ranges
  have hop : op ∈ call.gridOps gridUpdater := by
    have hranges : call.ranges ≠ [] := by
      refine List.ne_nil_of_length_pos ?_
      simp [call, callOn, m, n, SceneSimulatorNode.scan, Scene.generateScan,
        SceneSimulatorNode.tick, Scene.update, Scene.make]
    have hscan : call.hasScan = true := rfl
    simp [PerceptionCall.gridOps, PerceptionCall.scanOps, hranges, hscan, op]
  have hclock : (SimState.start n.scene).clock ≤ 50000000 := by
    norm_num [SimState.start]
  have hslow (s : SceneMap ℝ) : Driven 1 1 s (.sim (.tick 50000000)) ∧ Driven 1 1 s (.pose m) ∧
      Driven 1 1 s (.scan m) ∧ Driven 1 1 s (.call false (some m) (some m) []) ∧
      Driven 1 1 s (.write op) := ⟨trivial, trivial, trivial, trivial, trivial⟩
  have hstart : Run (only (Driven 1 1) MapStep) (.start n.scene) [] (.start n.scene) := .start
  have htick := hstart.snoc ⟨(hslow _).1, .sim (.tick hclock)⟩
  have hpose := htick.snoc ⟨(hslow _).2.1, .pose (List.mem_singleton_self _)⟩
  have hscan := hpose.snoc ⟨(hslow _).2.2.1, .scan (List.mem_singleton_self _)⟩
  have hcall := hscan.snoc ⟨(hslow _).2.2.2.1, .call false [] (by simp) (by simp)⟩
  have hwrite := hcall.snoc ⟨(hslow _).2.2.2.2, .write (List.mem_singleton_self _) hop⟩
  refine ⟨_, _, m, hwrite, List.mem_singleton_self _, rfl, ?_⟩
  obtain ⟨grid, hrun, hcells⟩ :=
    map_near "rack_3c" 0 {} sameBox northDraw zero_le_one zero_le_one hwrite
  refine ⟨grid, hrun, fun c hc hlethal => ?_⟩
  obtain ⟨wx, wy, hmem, -⟩ | ⟨_, _, _, hnone⟩ | ⟨_, a, b, _, hevent, hnear⟩ := hcells c hc hlethal
  · have heq : GridOp.inflate wx wy = op := List.mem_singleton.mp hmem
    simp [op] at heq
  · simp at hnone
  · simp at hevent
    obtain ⟨-, rfl, rfl, -⟩ := hevent
    simpa using hnear

end Runs

end AmrFramework.Simulation
