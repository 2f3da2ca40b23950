import AmrFramework.Runs
import AmrFramework.TrackErrorMonitor
import AmrFramework.VelocitySmoother
import AmrFramework.VfhAvoidance

/-!
# The motor controller

`MotorCtrlNode::execute` runs one goal at a time. It copies the latest path, or
draws a line to the target, and then ticks at 20 Hz: pure pursuit, avoidance,
collision guard, tracking error, smoother, one published twist.

The subscriptions run in another thread. Their messages arrive between ticks, and
at the points of a tick where they can make a difference: before the avoidance
takes its snapshot of the scan, before the guard clamps, before the loop asks
whether odometry is there, and before it stores the integrated pose.

The round is cut into stages, each a function of what came before it: what pure pursuit answers,
what the avoidance makes of it, what the guard lets through, what the tracking error takes away.
The properties of later modules are about one stage or a few of them, and a change of one stage
of the source should be felt there only.
-/

namespace AmrFramework.Execution

open Runs

universe u

variable {K : Type u}

/-- What arrives on `/odom`, `/scan` and `/planning/path`. Of the odometry the position and two
components of the orientation are read, and nothing is checked; all numbers are finite, apart
from the ranges of a scan, of which an invalid one is `none`. -/
inductive Message (K : Type u) : Type u
  | odom (x y qz qw : K)
  | scan (scan : ScanData K) (now : Int)
  | path (poses : List (Waypoint K))

/-- The variables of `execute` that live as long as the goal. The path is copied when the goal
begins, and a path received later is for the next goal. -/
structure ActiveGoal (K : Type u) : Type u where
  target : Waypoint K
  /-- the latest path when the goal began -/
  received : List (Waypoint K)
  /-- the copy that the loop follows, and changes -/
  path : List (Waypoint K)

/-- `MoveToPose::Result`. -/
structure MoveResult (K : Type u) : Type u where
  reached : Bool
  finalX : K
  finalY : K

/-- One round of the loop: whether a cancel request is there, the time that the
guard is given, and the messages that arrive meanwhile. -/
structure ControlInput (K : Type u) : Type u where
  canceling : Bool
  beforeSnapshot : List (Message K)
  beforeClamp : List (Message K)
  guardNow : Int
  beforeAdvance : List (Message K)
  beforeStore : List (Message K)

variable [Field K]

/-- The data members, as the callbacks and the control loop share them. They outlive goals: what
one goal leaves in them is what the next one starts from. -/
structure MotorNode (K : Type u) [Field K] : Type u where
  guard : CollisionGuard K
  vfhEnabled : Bool
  /-- the progress of `tracker_` -/
  progress : Nat := 0
  /-- the gap memory of `vhf_` -/
  lastGapCenter : Option K := none
  lastCmd : Twist2D K := .zero
  latestPath : List (Waypoint K) := []
  currentPose : Pose2D K := ⟨0, 0, 0⟩
  odomValid : Bool := false

/-- `on_configure`, with its three parameters. All others keep their defaults. -/
def MotorNode.configure (vfhEnabled : Bool) (guardStopDist : K) (guardMinValidEchoes : Int) :
    MotorNode K where
  guard :=
    { params := { stopDist := guardStopDist, minValidEchoes := guardMinValidEchoes } }
  vfhEnabled := vfhEnabled

section Order

variable [LinearOrder K]

/-- `publish_twist`. A zero twist is published as it is, which is how the robot is stopped at
once; any other goes through the smoother, from the twist that was published last. -/
def MotorNode.publishTwist (node : MotorNode K) (twist : Twist2D K) : MotorNode K :=
  { node with
    lastCmd :=
      if twist.linear = 0 ∧ twist.angular = 0 then .zero
      else ({} : SmootherParams K).smooth twist node.lastCmd 0.05 }

/-- The lateral error scales the speed, and too large a one stops the robot. The turn rate is
left as it is by a warning. -/
def TrackErrorState.limit (err : TrackErrorState K) (twist : Twist2D K) : Twist2D K :=
  match err.level with
  | .error => .zero
  | .warn => { twist with linear := twist.linear * err.speedScale }
  | .ok => twist

end Order

variable [CMath K]

/-- `on_odom`, `on_scan` and `on_path`. The heading is taken from two components of the
quaternion, which is enough in the plane. -/
def MotorNode.onMessage (node : MotorNode K) : Message K → MotorNode K
  | .odom x y qz qw =>
    { node with currentPose := ⟨x, y, 2.0 * CMath.atan2 qz qw⟩, odomValid := true }
  | .scan scan now => { node with guard := node.guard.setScan scan now }
  | .path poses => { node with latestPath := poses }

/-- Messages in the order in which they arrive. Each is a callback that runs to its end. -/
def MotorNode.receive (node : MotorNode K) (messages : List (Message K)) : MotorNode K :=
  messages.foldl MotorNode.onMessage node

/-- `execute`, before the loop. Messages can arrive between the reading of the
pose and the copying of the path. -/
def MotorNode.beginGoal (node : MotorNode K) (target : Waypoint K) (now : Int)
    (beforePath : List (Message K)) : MotorNode K × ActiveGoal K :=
  let current := node.currentPose
  let node := { node with progress := 0, guard := node.guard.clearHold now }.receive beforePath
  (node,
    { target := target
      received := node.latestPath
      path :=
        if node.latestPath.length < 2 then [current.position, target] else node.latestPath })

/-- The pose advanced by one period, without odometry: the node then drives on its own reckoning. -/
def Pose2D.advance (current : Pose2D K) (twist : Twist2D K) : Pose2D K :=
  let dt := 1.0 / 20.0
  { x := current.x + twist.linear * CMath.cos current.theta * dt
    y := current.y + twist.linear * CMath.sin current.theta * dt
    theta := current.theta + twist.angular * dt }

variable [LinearOrder K] [FloorRing K]

/-! ## The stages of a tick

Every stage is given the node and the goal at the begin of the round, and what arrives during it.
Messages come in at the stage that first can see them. -/

/-- Pure pursuit: the twist, and the new progress. It works on the copy of the path, from where
the progress is. -/
def tracked (node : MotorNode K) (exec : ActiveGoal K) : Twist2D K × Nat :=
  ({} : PursuitParams K).track node.progress exec.path node.currentPose

/-- The node when the scan is copied for the avoidance: pursuit has moved its progress on, and a
scan may have come. -/
def tracking (i : ControlInput K) (node : MotorNode K) (exec : ActiveGoal K) : MotorNode K :=
  { node with progress := (tracked node exec).2 }.receive i.beforeSnapshot

/-- The bearing that the avoidance is given, and the progress after that. It comes from a second
search, for the lookahead point. -/
def goalBearing (i : ControlInput K) (node : MotorNode K) (exec : ActiveGoal K) : K × Nat :=
  ({} : PursuitParams K).lookaheadBearing (tracking i node exec).progress exec.path
    node.currentPose

/-- What the avoidance answers, and its memory after that. It is given the forward speed of
pursuit, so that it does nothing for a robot that stands. -/
def steered (i : ControlInput K) (node : MotorNode K) (exec : ActiveGoal K) :
    SteerResult K × Option K :=
  ({} : VfhParams K).steer (tracking i node exec).lastGapCenter (tracking i node exec).guard.scan
    (goalBearing i node exec).1 (tracked node exec).1.linear

/-- The twist after the avoidance: slower while it is turned to a gap, and as it was otherwise,
also when there is no gap. Stopping is left to the guard. -/
def avoided (i : ControlInput K) (node : MotorNode K) (exec : ActiveGoal K) : Twist2D K :=
  let twist := (tracked node exec).1
  let avoid := (steered i node exec).1
  if node.vfhEnabled ∧ avoid.blocked = false ∧ avoid.steering ≠ 0 then
    ⟨twist.linear * 0.7, avoid.steering⟩
  else twist

/-- The node when the guard clamps: messages have come in meanwhile, and the avoidance has left
its memory. -/
def avoiding (i : ControlInput K) (node : MotorNode K) (exec : ActiveGoal K) : MotorNode K :=
  let node' := tracking i node exec
  (if node.vfhEnabled then
    { node' with
      progress := (goalBearing i node exec).2
      lastGapCenter := (steered i node exec).2 }
  else node').receive i.beforeClamp

/-- The forward speed that the guard returns, and the guard after that. The turn rate is none of
its business. -/
def guarded (i : ControlInput K) (node : MotorNode K) (exec : ActiveGoal K) :
    K × CollisionGuard K :=
  (avoiding i node exec).guard.clamp (avoided i node exec).linear i.guardNow

/-- The node after the guard, which has noted whether it stopped and when it last let the robot
go. -/
def guarding (i : ControlInput K) (node : MotorNode K) (exec : ActiveGoal K) : MotorNode K :=
  { avoiding i node exec with guard := (guarded i node exec).2 }

/-- What the avoidance answered, if it is enabled. -/
def answered (i : ControlInput K) (node : MotorNode K) (exec : ActiveGoal K) :
    Option (SteerResult K) :=
  if node.vfhEnabled then some (steered i node exec).1 else none

/-- The twist that is handed to `publish_twist`. The tracking error is measured last, on the path
whose start moves with the robot. -/
def commanded (i : ControlInput K) (node : MotorNode K) (exec : ActiveGoal K) : Twist2D K :=
  (({} : MonitorParams K).evaluate node.currentPose exec.path).limit
    ⟨(guarded i node exec).1, (avoided i node exec).angular⟩

/-! ## The tick

A round ends the goal, because it is canceled or because pursuit stopped; or it publishes a twist
and goes on. -/

/-- The end of a round: the node, the execution if it goes on and the result if it
does not, the published twist, what the avoidance answered, what the guard
returned. -/
structure ControlOutput (K : Type u) [Field K] : Type u where
  node : MotorNode K
  exec : Option (ActiveGoal K)
  result : Option (MoveResult K)
  published : Twist2D K
  steer : Option (SteerResult K)
  guardV : Option K

/-- The goal ends: a stop is published, and the result says where the robot is. -/
def MotorNode.finish (node : MotorNode K) (current : Pose2D K) (reached : Bool)
    (steer : Option (SteerResult K)) (guardV : Option K) : ControlOutput K where
  node := node.publishTwist .zero
  exec := none
  result := some ⟨reached, current.x, current.y⟩
  published := (node.publishTwist .zero).lastCmd
  steer := steer
  guardV := guardV

/-- The end of a round that goes on: without odometry the pose is integrated and
stored, and in any case the path now starts at the pose. -/
def MotorNode.proceed (node : MotorNode K) (i : ControlInput K) (current : Pose2D K)
    (exec : ActiveGoal K) (twist : Twist2D K) (steer : Option (SteerResult K)) (guardV : K) :
    ControlOutput K :=
  let published := node.publishTwist twist
  let loaded := published.receive i.beforeAdvance
  let stored := loaded.receive i.beforeStore
  let pose := if loaded.odomValid then current else current.advance twist
  { node := if loaded.odomValid then stored else { stored with currentPose := pose }
    exec := some { exec with path := exec.path.set 0 pose.position }
    result := none
    published := published.lastCmd
    steer := steer
    guardV := some guardV }

/-- Pure pursuit returned a zero twist. The loop takes this for the arrival. -/
def Arrived (node : MotorNode K) (exec : ActiveGoal K) : Prop :=
  (tracked node exec).1.linear = 0 ∧ (tracked node exec).1.angular = 0

instance (node : MotorNode K) (exec : ActiveGoal K) : Decidable (Arrived node exec) :=
  inferInstanceAs (Decidable (_ ∧ _))

/-- One round of the loop of `execute`. The stages come in the order of the source, and the first
one that ends the goal ends the round. -/
def controlTick (i : ControlInput K) (node : MotorNode K) (exec : ActiveGoal K) : ControlOutput K :=
  let current := node.currentPose
  if i.canceling then node.finish current false none none
  else if Arrived node exec then
    { node with progress := (tracked node exec).2 }.finish current true none none
  else if 3000 < (guarded i node exec).2.blockedFor i.guardNow then
    (guarding i node exec).finish current false (answered i node exec)
      (some (guarded i node exec).1)
  else
    (guarding i node exec).proceed i current exec (commanded i node exec) (answered i node exec)
      (guarded i node exec).1

/-! ## Runs

A run is any order of messages, goals and ticks. Nothing is assumed about how many messages come
between two ticks, or about what they say. -/

/-- The node, and the goal that it executes, if any. -/
structure MotorState (K : Type u) [Field K] : Type u where
  node : MotorNode K
  exec : Option (ActiveGoal K)

inductive MotorEvent (K : Type u) : Type u
  | message (m : Message K)
  | goal (target : Waypoint K) (now : Int) (beforePath : List (Message K))
  | tick (i : ControlInput K)

/-- One step of the node: a goal begins only when no other is executed. Rounds happen only while
one is. -/
def MotorState.step (s : MotorState K) : MotorEvent K → Option (MotorState K)
  | .message m => some { s with node := s.node.onMessage m }
  | .goal target now beforePath =>
    match s.exec with
    | none =>
      let begun := s.node.beginGoal target now beforePath
      some ⟨begun.1, some begun.2⟩
    | some _ => none
  | .tick i =>
    s.exec.map fun exec =>
      let out := controlTick i s.node exec
      ⟨out.node, out.exec⟩

/-- The steps as a relation. -/
def MotorStep (s : MotorState K) (e : MotorEvent K) (s' : MotorState K) : Prop :=
  s.step e = some s'

/-- The runs of a configured node. -/
def MotorRun (vfhEnabled : Bool) (guardStopDist : K) (guardMinValidEchoes : Int) :
    List (MotorEvent K) → MotorState K → Prop :=
  Run MotorStep ⟨.configure vfhEnabled guardStopDist guardMinValidEchoes, none⟩

/-! ## What messages and rounds do

One lemma for each way in which a round can end, and one for what messages leave alone. The
modules that follow cite these and do not unfold the round. -/

omit [LinearOrder K] [FloorRing K] in
/-- Messages do not touch what only the loop writes: the last command, the progress, the
remembered gap. -/
theorem MotorNode.receive_keeps (node : MotorNode K) (messages : List (Message K)) :
    (node.receive messages).lastCmd = node.lastCmd ∧
      (node.receive messages).progress = node.progress ∧
      (node.receive messages).lastGapCenter = node.lastGapCenter ∧
      (node.receive messages).vfhEnabled = node.vfhEnabled ∧
      (node.receive messages).guard.lastStop = node.guard.lastStop := by
  induction messages generalizing node with
  | nil => exact ⟨rfl, rfl, rfl, rfl, rfl⟩
  | cons m messages ih =>
    have hrest := ih (node.onMessage m)
    cases m <;> exact hrest

/-- The stages before `publish_twist` keep the last command. -/
theorem guarding_lastCmd (i : ControlInput K) (node : MotorNode K) (exec : ActiveGoal K) :
    (guarding i node exec).lastCmd = node.lastCmd := by
  have htracking : (tracking i node exec).lastCmd = node.lastCmd := (MotorNode.receive_keeps _ _).1
  simp only [guarding, avoiding]
  rw [(MotorNode.receive_keeps _ _).1]
  split_ifs
  · exact htracking
  · exact htracking

/-- A round that does not end the goal goes through all stages, and its output is what the last
one makes of it. -/
theorem controlTick_of_none {i : ControlInput K} {node : MotorNode K} {exec : ActiveGoal K}
    (h : (controlTick i node exec).result = none) :
    ¬ Arrived node exec ∧
      controlTick i node exec =
        (guarding i node exec).proceed i node.currentPose exec (commanded i node exec)
          (answered i node exec) (guarded i node exec).1 := by
  simp only [controlTick] at h ⊢
  split_ifs at h ⊢ with hcancel harrived hblocked
  · cases h
  · cases h
  · cases h
  · exact ⟨harrived, rfl⟩

/-- A round that ends the goal stops the robot where it is, and reports arrival
only when pure pursuit did. -/
theorem controlTick_of_some {i : ControlInput K} {node : MotorNode K} {exec : ActiveGoal K}
    {r : MoveResult K} (h : (controlTick i node exec).result = some r) :
    (controlTick i node exec).exec = none ∧ (controlTick i node exec).published = .zero ∧
      (controlTick i node exec).node.lastCmd = .zero ∧
      r.finalX = node.currentPose.x ∧ r.finalY = node.currentPose.y ∧
      (r.reached = true → Arrived node exec) := by
  have hzero : ∀ node : MotorNode K, (node.publishTwist .zero).lastCmd = .zero :=
    fun _ => if_pos ⟨rfl, rfl⟩
  simp only [controlTick] at h ⊢
  split_ifs at h ⊢ with hcancel harrived hblocked
  · cases h
    exact ⟨rfl, hzero _, hzero _, rfl, rfl, fun hreached => by cases hreached⟩
  · cases h
    exact ⟨rfl, hzero _, hzero _, rfl, rfl, fun _ => harrived⟩
  · cases h
    exact ⟨rfl, hzero _, hzero _, rfl, rfl, fun hreached => by cases hreached⟩
  · cases h

/-- What is published when the goal goes on. -/
theorem published_of_none {i : ControlInput K} {node : MotorNode K} {exec : ActiveGoal K}
    (hgoes : (controlTick i node exec).result = none) :
    (controlTick i node exec).guardV = some (guarded i node exec).1 ∧
      (controlTick i node exec).node.guard.lastStop = (guarded i node exec).2.lastStop ∧
      (controlTick i node exec).node.lastCmd = (controlTick i node exec).published ∧
      (controlTick i node exec).published =
        if (commanded i node exec).linear = 0 ∧ (commanded i node exec).angular = 0 then .zero
        else ({} : SmootherParams K).smooth (commanded i node exec) node.lastCmd 0.05 := by
  rw [(controlTick_of_none hgoes).2, ← guarding_lastCmd i node exec]
  simp only [MotorNode.proceed]
  refine ⟨trivial, ?_, ?_, rfl⟩
  · split_ifs
    all_goals
      simp only [(MotorNode.receive_keeps _ _).2.2.2.2]
      rfl
  · split_ifs
    all_goals
      simp only [(MotorNode.receive_keeps _ _).1]

/-! ## The path over runs

The loop replaces the first waypoint of its copy by the pose in every round, and never another
one. So the rest of the path is the rest of what was received, whatever happens in between. -/

/-- What a goal follows after its first waypoint. -/
def ActiveGoal.rest (exec : ActiveGoal K) : List (Waypoint K) :=
  if exec.received.length < 2 then [exec.target] else exec.received.tail

/-- The loop only moves the first waypoint. -/
def ActiveGoal.Kept (exec : ActiveGoal K) : Prop := ∃ start, exec.path = start :: exec.rest

omit [Field K] [CMath K] [LinearOrder K] [FloorRing K] in
/-- A goal that received a path follows it, behind its first waypoint. -/
theorem ActiveGoal.Kept.path_eq {exec : ActiveGoal K} (hkept : exec.Kept)
    (hreceived : 2 ≤ exec.received.length) :
    ∃ start, exec.path = start :: exec.received.tail := by
  obtain ⟨start, hpath⟩ := hkept
  have hrest : exec.rest = exec.received.tail := if_neg (not_lt.mpr hreceived)
  exact ⟨start, hrest ▸ hpath⟩

omit [Field K] [CMath K] [LinearOrder K] [FloorRing K] in
/-- Behind the first waypoint it is the received one. -/
theorem ActiveGoal.Kept.getElem?_path {exec : ActiveGoal K} (hkept : exec.Kept)
    (hreceived : 2 ≤ exec.received.length) {j : Nat} (hj : 1 ≤ j) :
    exec.path[j]? = exec.received[j]? := by
  obtain ⟨start, hpath⟩ := hkept.path_eq hreceived
  obtain ⟨j, rfl⟩ := Nat.exists_eq_add_of_le' hj
  rw [hpath, List.getElem?_cons_succ, List.getElem?_tail]

/-- One round keeps the rest of the path: the first waypoint is dropped and put back. -/
theorem ActiveGoal.Kept.tick {exec exec' : ActiveGoal K} (hkept : exec.Kept) {i : ControlInput K}
    {node : MotorNode K} (h : (controlTick i node exec).exec = some exec') :
    exec'.Kept ∧ exec'.received = exec.received ∧ exec'.target = exec.target := by
  obtain ⟨start, hpath⟩ := hkept
  rcases hresult : (controlTick i node exec).result with _ | r
  · rw [(controlTick_of_none hresult).2] at h
    obtain rfl := Option.some.inj h
    have hset : ∀ p, exec.path.set 0 p = p :: exec.rest := fun p => by
      rw [hpath, List.set_cons_zero]
    exact ⟨⟨_, hset _⟩, rfl, rfl⟩
  · rw [(controlTick_of_some hresult).1] at h
    cases h

omit [LinearOrder K] [FloorRing K] in
/-- A goal begins on the latest path, or on a line to its target. -/
theorem MotorNode.beginGoal_kept (node : MotorNode K) (target : Waypoint K) (now : Int)
    (beforePath : List (Message K)) : (node.beginGoal target now beforePath).2.Kept := by
  obtain hlen | hlen := Nat.lt_or_ge (node.beginGoal target now beforePath).2.received.length 2
  · have hrest : (node.beginGoal target now beforePath).2.rest = [target] := if_pos hlen
    rw [ActiveGoal.Kept, hrest]
    exact ⟨_, if_pos hlen⟩
  · have hrest : (node.beginGoal target now beforePath).2.rest =
        (node.beginGoal target now beforePath).2.received.tail := if_neg (not_lt.mpr hlen)
    have hpath : (node.beginGoal target now beforePath).2.path =
        (node.beginGoal target now beforePath).2.received := if_neg (not_lt.mpr hlen)
    rw [ActiveGoal.Kept, hrest, hpath]
    exact ⟨_, (List.cons_head_tail (List.ne_nil_of_length_pos (two_pos.trans_le hlen))).symm⟩

/-- In every run a goal follows the path that was the latest when it began, or a line to its
target. A goal begins so, and then only rounds touch it. -/
theorem run_kept {vfhEnabled : Bool} {guardStopDist : K} {guardMinValidEchoes : Int}
    {h : List (MotorEvent K)} {s : MotorState K}
    (hr : MotorRun vfhEnabled guardStopDist guardMinValidEchoes h s) :
    ∀ exec, s.exec = some exec → exec.Kept := by
  refine hr.invariant (I := fun _ s => ∀ exec, s.exec = some exec → exec.Kept)
    (fun exec hexec => by cases hexec) ?_
  intro h s e s' hkept hstep exec' hexec'
  cases e with
  | message m =>
    obtain rfl := Option.some.inj hstep
    exact hkept exec' hexec'
  | goal target now beforePath =>
    simp only [MotorStep, MotorState.step] at hstep
    split at hstep
    · obtain rfl := Option.some.inj hstep
      obtain rfl := Option.some.inj hexec'
      exact s.node.beginGoal_kept target now beforePath
    · cases hstep
  | tick i =>
    obtain ⟨exec, hexec, rfl⟩ := Option.map_eq_some_iff.mp hstep
    exact ((hkept exec hexec).tick hexec').1

/-- Messages can always arrive. -/
theorem run_receive {vfhEnabled : Bool} {guardStopDist : K} {guardMinValidEchoes : Int}
    {h : List (MotorEvent K)} {node : MotorNode K} {exec : Option (ActiveGoal K)}
    (hr : MotorRun vfhEnabled guardStopDist guardMinValidEchoes h ⟨node, exec⟩)
    (messages : List (Message K)) :
    ∃ h', MotorRun vfhEnabled guardStopDist guardMinValidEchoes h'
      ⟨node.receive messages, exec⟩ := by
  induction messages generalizing h node with
  | nil => exact ⟨h, hr⟩
  | cons m messages ih =>
    have hstep : MotorStep ⟨node, exec⟩ (.message m) ⟨node.onMessage m, exec⟩ := rfl
    exact ih (hr.snoc hstep)

/-- A goal can begin after any messages. -/
theorem run_goal (vfhEnabled : Bool) (guardStopDist : K) (guardMinValidEchoes : Int)
    (messages : List (Message K)) (target : Waypoint K) (now : Int) :
    let begun := ((MotorNode.configure vfhEnabled guardStopDist guardMinValidEchoes).receive
      messages).beginGoal target now []
    ∃ h, MotorRun vfhEnabled guardStopDist guardMinValidEchoes h ⟨begun.1, some begun.2⟩ := by
  obtain ⟨h, hr⟩ := run_receive
    (Run.start : MotorRun vfhEnabled guardStopDist guardMinValidEchoes [] _) messages
  exact ⟨.goal target now [] :: h, hr.snoc rfl⟩

/-- A round without a cancel request and without messages. -/
def quiet (now : Int) : ControlInput K where
  canceling := false
  beforeSnapshot := []
  beforeClamp := []
  guardNow := now
  beforeAdvance := []
  beforeStore := []

/-- Such a round with odometry, without avoidance. -/
theorem controlTick_quiet {now : Int} {node : MotorNode K} {exec : ActiveGoal K}
    {twist : Twist2D K} {progress : Nat} {v : K} {guard : CollisionGuard K}
    (hvfh : node.vfhEnabled = false) (hodom : node.odomValid = true)
    (htrack : tracked node exec = (twist, progress))
    (hmoves : ¬ (twist.linear = 0 ∧ twist.angular = 0))
    (hguard : node.guard.clamp twist.linear now = (v, guard))
    (hblocked : ¬ 3000 < guard.blockedFor now) :
    controlTick (quiet now) node exec =
      let node' := { node with progress := progress, guard := guard }.publishTwist
        ((({} : MonitorParams K).evaluate node.currentPose exec.path).limit ⟨v, twist.angular⟩)
      { node := node'
        exec := some { exec with path := exec.path.set 0 node.currentPose.position }
        result := none
        published := node'.lastCmd
        steer := none
        guardV := some v } := by
  have harrived : ¬ Arrived node exec := by
    rw [Arrived, htrack]
    exact hmoves
  have havoided : avoided (quiet now) node exec = twist := by
    simp only [avoided, hvfh, htrack, Bool.false_eq_true, false_and, if_false]
  have havoiding : avoiding (quiet now) node exec = { node with progress := progress } := by
    simp only [avoiding, tracking, hvfh, htrack, Bool.false_eq_true, if_false]
    rfl
  have hguarded : guarded (quiet now) node exec = (v, guard) := by
    rw [guarded, havoided, havoiding]
    exact hguard
  have hanswered : answered (quiet now) node exec = none := by
    rw [answered, hvfh]
    rfl
  have hguarding : guarding (quiet now) node exec =
      { node with progress := progress, guard := guard } := by
    rw [guarding, havoiding, hguarded]
  have hgoes : ¬ 3000 < (guarded (quiet now) node exec).2.blockedFor now := by
    rw [hguarded]
    exact hblocked
  have hnow : (quiet now : ControlInput K).guardNow = now := rfl
  rw [controlTick, if_neg (by simp [quiet]), if_neg harrived, hnow, if_neg hgoes, hguarding,
    hanswered, commanded, hguarded, havoided]
  simp only [MotorNode.proceed, MotorNode.receive, quiet, List.foldl_nil, MotorNode.publishTwist,
    hodom, if_true]

variable [IsStrictOrderedRing K]

omit [FloorRing K] in
/-- The robot has arrived when it is close to the end of the path it follows. Pursuit returns a
zero twist in no other case: elsewhere it always has some speed. -/
theorem arrived_iff {node : MotorNode K} {exec : ActiveGoal K} {goal : Waypoint K}
    (hgoal : exec.path.getLast? = some goal) :
    Arrived node exec ↔
      dist2d goal node.currentPose.position < ({} : PursuitParams K).goalTolerance := by
  rcases PursuitParams.positive_default.track_cases node.progress hgoal node.currentPose with
    ⟨hnear, htrack⟩ | ⟨hfar, hpos, -, -⟩
  · refine iff_of_true ?_ hnear
    rw [Arrived, tracked, htrack]
    exact ⟨rfl, rfl⟩
  · exact iff_of_false (fun harrived => hpos.ne' harrived.1) (not_lt.mpr hfar)

omit [FloorRing K] in
/-- A robot that has not arrived moves forward. -/
theorem tracked_of_not_arrived {node : MotorNode K} {exec : ActiveGoal K}
    (h : ¬ Arrived node exec) :
    0 < (tracked node exec).1.linear ∧
      (tracked node exec).2 = (nearest node.progress exec.path node.currentPose).1 := by
  rcases hgoal : exec.path.getLast? with _ | goal
  · refine absurd ?_ h
    rw [Arrived, tracked, PursuitParams.track, hgoal]
    exact ⟨rfl, rfl⟩
  · rcases PursuitParams.positive_default.track_cases node.progress hgoal node.currentPose with
      ⟨hnear, -⟩ | ⟨-, hpos, -, hprogress⟩
    · exact absurd ((arrived_iff hgoal).mpr hnear) h
    · exact ⟨hpos, hprogress⟩

/-- The tracking error is too large. -/
def TrackError (node : MotorNode K) (exec : ActiveGoal K) : Prop :=
  (({} : MonitorParams K).evaluate node.currentPose exec.path).level = .error

/-- The smoother is bypassed on a tracking error, and when the guard stopped and no turn is
commanded. A robot that the guard stopped and that is turning goes through the smoother, and
rolls out. -/
theorem commanded_eq_zero_iff {i : ControlInput K} {node : MotorNode K} {exec : ActiveGoal K} :
    ((commanded i node exec).linear = 0 ∧ (commanded i node exec).angular = 0) ↔
      TrackError node exec ∨
        ((guarded i node exec).1 = 0 ∧ (avoided i node exec).angular = 0) := by
  simp only [commanded, TrackErrorState.limit, TrackError]
  split
  · next herror => exact iff_of_true ⟨rfl, rfl⟩ (.inl herror)
  · next hwarn =>
    obtain ⟨hpos, -⟩ := MonitorParams.speedScale_pos {} node.currentPose exec.path
      (by rw [hwarn]; decide)
    rw [hwarn, or_iff_right (by decide), mul_eq_zero, or_iff_left hpos.ne']
  · next hok => rw [hok, or_iff_right (by decide)]

/-- A tick with a tracking error stops the robot. -/
theorem published_of_trackError {i : ControlInput K} {node : MotorNode K} {exec : ActiveGoal K}
    (herror : TrackError node exec) : (controlTick i node exec).published = .zero := by
  rcases hresult : (controlTick i node exec).result with _ | r
  · rw [(published_of_none hresult).2.2.2, if_pos (commanded_eq_zero_iff.mpr (.inl herror))]
  · exact (controlTick_of_some hresult).2.1

end AmrFramework.Execution
