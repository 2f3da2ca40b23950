import Mathlib.Algebra.Order.Group.Unbundled.Abs
import Mathlib.Algebra.Order.Ring.Rat
import AmrFramework.PerceptionService
import AmrFramework.Runs

/-!
# The decision node

`DecisionNode` sends the task goal to the motor controller as a `MoveToPose`
goal. Every perception message is an occasion to do so: `on_perception` asks the
dispatch gate, plans a path, looks whether a goal is active, sends, and has the
gate remember the goal. A rejected goal is sent again, three times at most.

The responses and the results come back in the default callback group, one at a
time. `on_perception` is in a reentrant group: several of its calls may run at
once, and anything may come in between. A `Callback` is a whole call; a `Piece`
is what a call does between two places where it reads or writes what the other
callbacks do.
-/

namespace AmrFramework.Planning

open Perception Runs

/-- A point of the map or of the odometry frame. -/
structure Point where
  x : ℚ
  y : ℚ
  deriving DecidableEq, Repr

/-! ## The dispatch gate

The gate knows the goal that was dispatched last, and whether fusion is alive. It compares goals
as the task sets them, in the frame of the map, and not as they are sent. -/

structure GoalDispatchGate where
  /-- the goal dispatched last -/
  lastMap : Point := ⟨0, 0⟩
  dispatched : Bool := false
  fusionReady : Bool := false

/-- `GoalDispatchGate::kEps`. -/
def kEps : ℚ := 1 / 1000

/-- The gate takes two goals for one. -/
def SameGoal (a b : Point) : Prop := |a.x - b.x| < kEps ∧ |a.y - b.y| < kEps

instance (a b : Point) : Decidable (SameGoal a b) := inferInstanceAs (Decidable (_ ∧ _))

namespace GoalDispatchGate

def setFusionReady (gate : GoalDispatchGate) (ready : Bool) : GoalDispatchGate :=
  { gate with fusionReady := ready }

def shouldDispatch (gate : GoalDispatchGate) (goal : Point) : Bool :=
  if ¬ gate.fusionReady then false
  else if gate.dispatched ∧ SameGoal goal gate.lastMap then false
  else true

def noteDispatched (gate : GoalDispatchGate) (goal : Point) : GoalDispatchGate :=
  { gate with lastMap := goal, dispatched := true }

def reset (gate : GoalDispatchGate) : GoalDispatchGate := { gate with dispatched := false }

end GoalDispatchGate

/-- `TargetSelector::kMaxRetries`. -/
def kMaxRetries : Nat := 3

/-- `TargetSelector::should_retry`. -/
def shouldRetry (attempts : Nat) : Bool := attempts < kMaxRetries

/-- `DegradationPolicy::from_heartbeat_string`. -/
def fromHeartbeatString (s : String) : Option DegradationLevel :=
  if s = "alive" then some .full
  else if s = "degraded_no_lidar" then some .noLidar
  else if s = "degraded_no_camera" then some .noCamera
  else if s = "degraded_no_imu" then some .noImu
  else if s = "critical" then some .critical
  else none

/-- `DegradationPolicy::is_nominal`. -/
def isNominal (level : DegradationLevel) : Bool := level = .full

/-! ## Goals in flight

A goal is on its way, executed, or has ended. Each remembers the dispatch that it goes back to,
so that a retry can be told from a goal of its own. -/

/-- A call of `on_perception` that got to `send_goal`: a number of its own, and the
task goal that it read. -/
structure Dispatch where
  number : Nat
  goal : Point
  deriving DecidableEq

/-- A `MoveToPose` goal that was sent, and the dispatch that it goes back to,
directly or as a retry. -/
structure SentGoal where
  id : Nat
  target : Point
  dispatch : Dispatch
  deriving DecidableEq

inductive ResultCode
  | unknown
  | succeeded
  | canceled
  | aborted
  deriving DecidableEq, Repr

/-- A call of `on_perception` in progress, by how far it has come. Other callbacks may run
between any two of its pieces, since its callback group is reentrant. -/
inductive Cycle
  /-- the gate let the goal through -/
  | planning (goal : Point)
  /-- no goal was active -/
  | unlocked (goal : Point)
  /-- `send_goal` has returned -/
  | sent (d : Dispatch)
  deriving DecidableEq

structure DecisionNode where
  /-- the parameters `goal_x` and `goal_y` -/
  goal : Point
  gate : GoalDispatchGate := {}
  currentPose : Point := ⟨0, 0⟩
  activeGoal : Option SentGoal := none
  lastTarget : Point := ⟨0, 0⟩
  retryCount : Nat := 0

/-- The node, its calls in progress and its goals, in the order in which they were sent. The last
fields count events and note where things are from; the node does not read them. -/
structure World where
  node : DecisionNode
  cycles : List Cycle := []
  /-- sent, without a response -/
  awaiting : List SentGoal := []
  /-- accepted, without a result -/
  executing : List SentGoal := []
  succeeded : List SentGoal := []
  /-- the goals sent so far -/
  sends : Nat := 0
  /-- the dispatches so far -/
  dispatches : Nat := 0
  /-- the dispatch that `last_target_` is from -/
  lastDispatch : Dispatch := ⟨0, ⟨0, 0⟩⟩
  /-- the dispatch that the gate remembers -/
  noted : Dispatch := ⟨0, ⟨0, 0⟩⟩

/-! ## Perception

`on_perception` is given what it finds as an environment. Its order matters: a goal that is
locked or that has no path is not noted, and one for which the server is not ready is. -/

/-- `kArrivalTolerance`. -/
def kArrivalTolerance : ℚ := 15 / 100

/-- The distance from the pose to the goal is below the tolerance. -/
def Arrived (pose goal : Point) : Prop :=
  (pose.x - goal.x) ^ 2 + (pose.y - goal.y) ^ 2 < kArrivalTolerance ^ 2

instance (pose goal : Point) : Decidable (Arrived pose goal) :=
  inferInstanceAs (Decidable (_ < _))

/-- The transform from `map` to `amr/odom`: a translation, and the cosine and the
sine of the yaw. -/
structure Transform where
  x : ℚ := 0
  y : ℚ := 0
  c : ℚ := 1
  s : ℚ := 0

def Transform.apply (t : Transform) (p : Point) : Point :=
  ⟨t.x + t.c * p.x - t.s * p.y, t.y + t.s * p.x + t.c * p.y⟩

/-- `send_goal`, when the action server is `ready` or not. -/
def World.sendGoal (w : World) (target : Point) (d : Dispatch) (ready : Bool) : World :=
  if ¬ ready then w
  else
    { w with
      node.lastTarget := target
      lastDispatch := d
      sends := w.sends + 1
      awaiting := ⟨w.sends + 1, target, d⟩ :: w.awaiting }

/-- The next dispatch. -/
def World.nextDispatch (w : World) (goal : Point) : Dispatch := ⟨w.dispatches + 1, goal⟩

/-- `on_perception` from the transform to the return of `send_goal`. -/
def World.dispatch (w : World) (goal : Point) (t : Transform) (ready : Bool) : World :=
  { w with dispatches := w.dispatches + 1 }.sendGoal (t.apply goal) (w.nextDispatch goal) ready

/-- `note_dispatched`. -/
def World.note (w : World) (d : Dispatch) : World :=
  { w with node.gate := w.node.gate.noteDispatched d.goal, noted := d }

/-- What `on_perception` finds: whether A* has a path on the grid, the transform of
the moment, and whether the action server is ready. -/
structure PerceptionEnv where
  pathFound : Bool := true
  mapToOdom : Option Transform := some {}
  ready : Bool := true

/-- `on_perception`. -/
def World.onPerception (w : World) (env : PerceptionEnv) : World :=
  let goal := w.node.goal
  if Arrived w.node.currentPose goal then w
  else if ¬ w.node.gate.shouldDispatch goal then w
  else if ¬ env.pathFound then w
  else if w.node.activeGoal.isSome then w
  else
    match env.mapToOdom with
    | none => w
    | some t => (w.dispatch goal t env.ready).note (w.nextDispatch goal)

/-- The call gets to `send_goal`, and the server is ready. -/
def World.Sends (w : World) (env : PerceptionEnv) : Prop :=
  ¬ Arrived w.node.currentPose w.node.goal ∧ w.node.gate.shouldDispatch w.node.goal = true ∧
    env.pathFound = true ∧ w.node.activeGoal = none ∧ env.mapToOdom.isSome = true ∧
    env.ready = true

instance (w : World) (env : PerceptionEnv) : Decidable (w.Sends env) :=
  inferInstanceAs (Decidable (_ ∧ _))

/-! ## The other callbacks

Each of these is one step: it reads and writes what the node holds, and calls nothing that waits. -/

/-- `on_fusion_heartbeat`. -/
def World.onFusionHeartbeat (w : World) (data : String) : World :=
  let ready := (fromHeartbeatString data).any isNominal
  { w with node.gate := w.node.gate.setFusionReady ready }

/-- `on_goal_pose`; `none` is a coordinate that is not finite. -/
def World.onGoalPose (w : World) (x y : Option ℚ) : World :=
  match x, y with
  | some gx, some gy => { w with node.goal := ⟨gx, gy⟩ }
  | _, _ => w

/-- `on_goal_response`. -/
def World.onGoalResponse (w : World) (goalHandle : Option SentGoal) (ready : Bool) : World :=
  match goalHandle with
  | none =>
    if shouldRetry w.node.retryCount then
      { w with node.retryCount := w.node.retryCount + 1 }.sendGoal
        w.node.lastTarget w.lastDispatch ready
    else { w with node.retryCount := 0 }
  | some g => { w with node.activeGoal := some g, node.retryCount := 0 }

/-- `on_result`. -/
def World.onResult (w : World) (code : ResultCode) : World :=
  let w := { w with node.activeGoal := none }
  match code with
  | .succeeded => w
  | .canceled => w
  | .aborted => { w with node.gate := w.node.gate.reset }
  | .unknown => { w with node.gate := w.node.gate.reset }

inductive Event
  | amclPose (pose : Point)
  | heartbeat (data : String)
  | goalPose (x y : Option ℚ)
  /-- the server accepts or rejects a goal -/
  | response (g : SentGoal) (accepted ready : Bool)
  /-- an accepted goal ends -/
  | result (g : SentGoal) (code : ResultCode)

/-- The callback of an event; `none` when the server has no such goal. -/
def World.handle (w : World) : Event → Option World
  | .amclPose pose => some { w with node.currentPose := pose }
  | .heartbeat data => some (w.onFusionHeartbeat data)
  | .goalPose x y => some (w.onGoalPose x y)
  | .response g accepted ready =>
    if g ∈ w.awaiting then
      let w := { w with awaiting := w.awaiting.erase g }
      if accepted then
        some ({ w with executing := g :: w.executing }.onGoalResponse (some g) ready)
      else some (w.onGoalResponse none ready)
    else none
  | .result g code =>
    if g ∈ w.executing then
      let w := { w with executing := w.executing.erase g }
      if code = .succeeded then some ({ w with succeeded := g :: w.succeeded }.onResult code)
      else some (w.onResult code)
    else none

/-- The node after `on_configure`, with its parameters. -/
def World.start (goal : Point) : World where
  node := { goal := goal }

/-! ## Runs of callbacks, and of pieces of them

Two step relations over the same world. The pieces of one call come in their order, since each
leaves behind what the next one is given; between them there may be pieces of other calls. -/

inductive Callback
  | perception (env : PerceptionEnv)
  | other (e : Event)

def World.callback (w : World) : Callback → Option World
  | .perception env => some (w.onPerception env)
  | .other e => w.handle e

/-- A callback runs to its end. -/
def CallbackStep (w : World) (c : Callback) (w' : World) : Prop := w.callback c = some w'

inductive Piece
  /-- to the gate -/
  | begin
  /-- A*, to the goal lock -/
  | lock (goal : Point) (pathFound : Bool)
  /-- to the return of `send_goal` -/
  | send (goal : Point) (mapToOdom : Option Transform) (ready : Bool)
  /-- `note_dispatched` -/
  | note (d : Dispatch)
  | other (e : Event)

/-- A piece of a call of `on_perception`, or another callback; `none` when there is
no such call. -/
def World.piece (w : World) : Piece → Option World
  | .begin =>
    let goal := w.node.goal
    if Arrived w.node.currentPose goal then some w
    else if ¬ w.node.gate.shouldDispatch goal then some w
    else some { w with cycles := .planning goal :: w.cycles }
  | .lock goal pathFound =>
    if .planning goal ∈ w.cycles then
      let w := { w with cycles := w.cycles.erase (.planning goal) }
      if ¬ pathFound then some w
      else if w.node.activeGoal.isSome then some w
      else some { w with cycles := .unlocked goal :: w.cycles }
    else none
  | .send goal mapToOdom ready =>
    if .unlocked goal ∈ w.cycles then
      let w := { w with cycles := w.cycles.erase (.unlocked goal) }
      match mapToOdom with
      | none => some w
      | some t =>
        some ({ w with cycles := .sent (w.nextDispatch goal) :: w.cycles }.dispatch goal t ready)
    else none
  | .note d =>
    if .sent d ∈ w.cycles then some ({ w with cycles := w.cycles.erase (.sent d) }.note d)
    else none
  | .other e => w.handle e

/-- The calls of `on_perception` interleave with one another and with the other
callbacks. -/
def PieceStep (w : World) (p : Piece) (w' : World) : Prop := w.piece p = some w'

variable {w : World}

/-- A whole call of `on_perception`, piece by piece. -/
theorem onPerception_pieces (w : World) (env : PerceptionEnv) :
    ∃ ps, Run PieceStep w ps (w.onPerception env) := by
  by_cases hpass : Arrived w.node.currentPose w.node.goal ∨
      w.node.gate.shouldDispatch w.node.goal = false
  · refine ⟨[.begin], .snoc .start ?_⟩
    obtain harrived | hgate := hpass
    · simp [PieceStep, World.piece, World.onPerception, harrived]
    · simp [PieceStep, World.piece, World.onPerception, hgate]
  · obtain ⟨harrived, hgate⟩ := not_or.mp hpass
    have hbegin : PieceStep w .begin
        { w with cycles := .planning w.node.goal :: w.cycles } := by
      simp [PieceStep, World.piece, harrived, hgate]
    have hlock := Run.start.snoc hbegin
    by_cases hstop : env.pathFound = false ∨ w.node.activeGoal.isSome = true
    · refine ⟨_, hlock.snoc (e := .lock w.node.goal env.pathFound) ?_⟩
      obtain hpath | hactive := hstop
      · simp [PieceStep, World.piece, World.onPerception, harrived, hgate, hpath]
      · simp [PieceStep, World.piece, World.onPerception, harrived, hgate, hactive]
    · obtain ⟨hpath, hactive⟩ := not_or.mp hstop
      have hunlocked : PieceStep { w with cycles := .planning w.node.goal :: w.cycles }
          (.lock w.node.goal env.pathFound)
          { w with cycles := .unlocked w.node.goal :: w.cycles } := by
        simp [PieceStep, World.piece, hpath, hactive]
      have hsend := hlock.snoc hunlocked
      cases htf : env.mapToOdom with
      | none =>
        refine ⟨_, hsend.snoc (e := .send w.node.goal env.mapToOdom env.ready) ?_⟩
        simp [PieceStep, World.piece, World.onPerception, harrived, hgate, hpath, hactive, htf]
      | some t =>
        let d := w.nextDispatch w.node.goal
        have hsent : PieceStep { w with cycles := .unlocked w.node.goal :: w.cycles }
            (.send w.node.goal env.mapToOdom env.ready)
            { w.dispatch w.node.goal t env.ready with cycles := .sent d :: w.cycles } := by
          cases hready : env.ready <;> simp [PieceStep, World.piece, htf] <;> rfl
        refine ⟨_, (hsend.snoc hsent).snoc (e := .note d) ?_⟩
        cases hready : env.ready <;>
          simp [PieceStep, World.piece, World.onPerception, harrived, hgate, hpath, hactive, htf,
            hready] <;> rfl

/-- **Refinement.** What whole callbacks reach, pieces of them reach. So what holds in all runs
of pieces holds in all runs of callbacks, and a counterexample needs no overlap if it has one in
the latter. -/
theorem run_pieces {w₀ : World} {h : List Callback} (hr : Run CallbackStep w₀ h w) :
    ∃ ps, Run PieceStep w₀ ps w := by
  induction hr with
  | start => exact ⟨[], .start⟩
  | snoc hr hstep ih =>
    next c _ =>
    obtain ⟨ps, hps⟩ := ih
    cases c with
    | perception env =>
      obtain rfl := Option.some.inj hstep
      obtain ⟨ps', hps'⟩ := onPerception_pieces _ env
      exact ⟨_, hps.trans hps'⟩
    | other e =>
      have hpiece : PieceStep _ (.other e) _ := hstep
      exact ⟨_, hps.snoc hpiece⟩

/-! ## What a callback does to the goals

What later modules ask about: where the goals are, whether the handle is set, and what the gate
remembers. One lemma sorts the events, and one says how `on_perception` can end. -/

/-- Without a goal that is answered. -/
def World.answered (w : World) (g : SentGoal) : World :=
  { w with awaiting := w.awaiting.erase g }

/-- Without a goal that has ended. -/
def World.finished (w : World) (g : SentGoal) : World :=
  { w with executing := w.executing.erase g }

/-- The goals, the handle and the memory of the gate are the same. Events that only move a call
along, or update the map or the pose, are of this kind. -/
structure World.SameGoals (w w' : World) : Prop where
  awaiting : w'.awaiting = w.awaiting
  executing : w'.executing = w.executing
  succeeded : w'.succeeded = w.succeeded
  activeGoal : w'.node.activeGoal = w.node.activeGoal
  lastMap : w'.node.gate.lastMap = w.node.gate.lastMap
  dispatched : w'.node.gate.dispatched = w.node.gate.dispatched
  noted : w'.noted = w.noted

theorem World.SameGoals.refl (w : World) : w.SameGoals w := ⟨rfl, rfl, rfl, rfl, rfl, rfl, rfl⟩

theorem onGoalPose_sameGoals (w : World) (x y : Option ℚ) : w.SameGoals (w.onGoalPose x y) := by
  cases x with
  | none => exact .refl w
  | some gx =>
    cases y with
    | none => exact .refl w
    | some gy => exact ⟨rfl, rfl, rfl, rfl, rfl, rfl, rfl⟩

def Event.AboutGoal : Event → Prop
  | .amclPose _ => False
  | .heartbeat _ => False
  | .goalPose .. => False
  | .response .. => True
  | .result .. => True

/-- **The five kinds of event**: about no goal, a goal accepted or rejected, a goal
reached or ended otherwise. -/
theorem handle_cases {e : Event} {w' : World} (hstep : w.handle e = some w') :
    (¬ e.AboutGoal ∧ w.SameGoals w') ∨
    (∃ g ready, e = .response g true ready ∧ g ∈ w.awaiting ∧
      w' = { w.answered g with executing := g :: w.executing }.onGoalResponse (some g) ready) ∨
    (∃ g ready, e = .response g false ready ∧ g ∈ w.awaiting ∧
      w' = (w.answered g).onGoalResponse none ready) ∨
    (∃ g, e = .result g .succeeded ∧ g ∈ w.executing ∧
      w' = { w.finished g with succeeded := g :: w.succeeded }.onResult .succeeded) ∨
    (∃ g code, code ≠ .succeeded ∧ e = .result g code ∧ g ∈ w.executing ∧
      w' = (w.finished g).onResult code) := by
  cases e with
  | amclPose pose =>
    obtain rfl := Option.some.inj hstep
    exact .inl ⟨id, rfl, rfl, rfl, rfl, rfl, rfl, rfl⟩
  | heartbeat data =>
    obtain rfl := Option.some.inj hstep
    exact .inl ⟨id, rfl, rfl, rfl, rfl, rfl, rfl, rfl⟩
  | goalPose x y =>
    obtain rfl := Option.some.inj hstep
    exact .inl ⟨id, onGoalPose_sameGoals w x y⟩
  | response g accepted ready =>
    simp only [World.handle] at hstep
    split at hstep
    · next hg =>
      cases accepted with
      | true => exact .inr (.inl ⟨g, ready, rfl, hg, (Option.some.inj hstep).symm⟩)
      | false => exact .inr (.inr (.inl ⟨g, ready, rfl, hg, (Option.some.inj hstep).symm⟩))
    · cases hstep
  | result g code =>
    simp only [World.handle] at hstep
    split at hstep
    · next hg =>
      split at hstep
      · next hcode =>
        obtain rfl := hcode
        exact .inr (.inr (.inr (.inl ⟨g, rfl, hg, (Option.some.inj hstep).symm⟩)))
      · next hcode =>
        exact .inr (.inr (.inr (.inr ⟨g, code, hcode, rfl, hg, (Option.some.inj hstep).symm⟩)))
    · cases hstep

@[simp] theorem sendGoal_node_activeGoal (target : Point) (d : Dispatch) (ready : Bool) :
    (w.sendGoal target d ready).node.activeGoal = w.node.activeGoal := by
  cases ready <;> rfl

@[simp] theorem sendGoal_executing (target : Point) (d : Dispatch) (ready : Bool) :
    (w.sendGoal target d ready).executing = w.executing := by
  cases ready <;> rfl

/-- **The two ends of `on_perception`**, as far as its goals go: one more is sent,
or nothing happens to them. -/
theorem onPerception_cases (w : World) (env : PerceptionEnv) :
    (w.onPerception env).node.activeGoal = w.node.activeGoal ∧
    (w.onPerception env).executing = w.executing ∧
    ((w.Sends env ∧ ∃ g, (w.onPerception env).awaiting = g :: w.awaiting) ∨
      (¬ w.Sends env ∧ (w.onPerception env).awaiting = w.awaiting)) := by
  simp only [World.onPerception, World.Sends]
  by_cases harrived : Arrived w.node.currentPose w.node.goal
  · simp [harrived]
  cases hgate : w.node.gate.shouldDispatch w.node.goal with
  | false => simp [harrived]
  | true =>
    cases hpath : env.pathFound with
    | false => simp [harrived]
    | true =>
      cases hactive : w.node.activeGoal with
      | some g => simp [harrived, hactive]
      | none =>
        cases htf : env.mapToOdom with
        | none => simp [harrived, hactive]
        | some t =>
          cases hready : env.ready with
          | false => simp [harrived, hactive, World.dispatch, World.sendGoal, World.note]
          | true => simp [harrived, hactive, World.dispatch, World.sendGoal, World.note]

end AmrFramework.Planning
