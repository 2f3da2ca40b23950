import Mathlib.Data.List.Sort
import Mathlib.Data.String.Basic
import AmrFramework.HealthFeed
import AmrFramework.SupervisorPolicy

/-!
# The supervisor node

`SupervisorNode` owns the child processes: it spawns them in dependency order,
collects exits and timeouts in a 250 ms tick, feeds them to the state machine
of each child and executes the actions that come back. When a child dies, its
transitive dependents yield first.

* `Roster` — a validated configuration, as `loadChildrenFromParams` makes it.
* `Env` — what the operating system answers. Every call of the clock, of
  `posix_spawn` and of `waitpid` is a question with a number, so that a run may
  get any answers in any order.
* `Procs` — the children, and a log (newest first) of what happened to them.
* `feed` — the re-entrant heart: feeding an event may cascade to other
  children, spawn, and feed again. The recursion carries its depth; `feedDepth`
  is never exhausted.
* `step` — one lifecycle callback, timer tick or health report.
-/

namespace AmrFramework.Monitoring

open DependencyOrder Runs

/-! ## The configuration

What `on_configure` reads and checks, once and for all. A `Roster` can only be obtained from
parameters that pass the checks, and it carries what they establish: the names are sorted, and
`topo` is a permutation of them in which dependencies come first. Nothing below checks this
again. -/

/-- The parameters `supervisor.<name>.*` of one child. The two that are given
in seconds, as floating-point numbers, are taken as converted. -/
structure ChildParams : Type where
  name : String
  cmd : List String := []
  dependsOn : List String := []
  oneshot : Bool := false
  healthNodes : List String := []
  maxRestarts : Int := 5
  windowNs : Int := 300000000000
  backoffBaseMs : Int := 1000
  backoffMaxMs : Int := 30000
  startupTimeoutNs : Int := 20000000000
  deriving DecidableEq, Repr

/-- The static half of `ProcChild`, which is set when the node is configured and not written
again. -/
structure ChildDecl : Type where
  spec : ChildSpec
  cmd : List String := []
  /-- the names it goes by in `/health/report` -/
  healthNodes : List String := []
  /-- only a health report confirms it -/
  healthGated : Bool := false
  deriving DecidableEq, Repr

/-- One child's declaration, from its parameters. -/
def ChildParams.decl (p : ChildParams) : ChildDecl where
  spec :=
    { name := p.name
      dependsOn := p.dependsOn
      oneshot := p.oneshot
      policy :=
        { maxRestarts := p.maxRestarts
          windowNs := p.windowNs
          backoffBaseNs := p.backoffBaseMs * 1000000
          backoffMaxNs := p.backoffMaxMs * 1000000
          startupTimeoutNs := p.startupTimeoutNs } }
  cmd := p.cmd
  healthNodes := p.healthNodes
  healthGated := !p.healthNodes.isEmpty

/-- A validated configuration: `children_` (the declarations, under their names
in map order) and `topo_`. -/
structure Roster : Type where
  names : List String
  decl : String → ChildDecl
  topo : List String
  sorted : names.Pairwise (· < ·)
  perm : topo.Perm names
  depsFirst : DepsFirst (fun n => (decl n).spec.dependsOn) [] topo
  gated : ∀ n, (decl n).healthGated = !(decl n).healthNodes.isEmpty

/-- The declaration under a name. -/
def declOf (ps : List ChildParams) (n : String) : ChildDecl :=
  match ps.find? fun p => p.name = n with
  | some p => p.decl
  | none => { spec := { name := n } }

theorem declOf_gated (ps : List ChildParams) (n : String) :
    (declOf ps n).healthGated = !(declOf ps n).healthNodes.isEmpty := by
  simp only [declOf]
  split <;> rfl

theorem declOf_name {ps : List ChildParams} (hps : (ps.map ChildParams.name).Nodup)
    {p : ChildParams} (hp : p ∈ ps) : declOf ps p.name = p.decl := by
  have hfind : ps.find? (fun q => q.name = p.name) = some p := by
    induction ps with
    | nil => cases hp
    | cons q ps ih =>
      rw [List.map_cons, List.nodup_cons] at hps
      obtain rfl | hp := List.mem_cons.mp hp
      · simp
      · have hne : q.name ≠ p.name := by
          intro he
          exact hps.1 (he ▸ List.mem_map_of_mem hp)
        rw [List.find?_cons_of_neg (by simpa using hne)]
        exact ih hps.2 hp
  simp only [declOf]
  rw [hfind]

/-- A repeated name makes `topoOrder` empty. -/
theorem topoOrder_of_not_nodup {specs : List ChildSpec}
    (h : ¬ (specs.map ChildSpec.name).Nodup) : topoOrder specs = [] := by
  simp [topoOrder, h]

/-- The specs that `topoOrder` sees. -/
def specsOf (ps : List ChildParams) : List ChildSpec := ps.map fun p => p.decl.spec

theorem specsOf_names (ps : List ChildParams) :
    (specsOf ps).map ChildSpec.name = ps.map ChildParams.name := by
  simp [specsOf, ChildParams.decl]

/-- `topo_` is usable: not empty, unless there is nothing to order. -/
def Orderable (ps : List ChildParams) : Prop := topoOrder (specsOf ps) ≠ [] ∨ specsOf ps = []

instance (ps : List ChildParams) : Decidable (Orderable ps) :=
  inferInstanceAs (Decidable (_ ∨ _))

/-- The names in an orderable configuration are distinct. -/
theorem Orderable.nodup {ps : List ChildParams} (h : Orderable ps) :
    (ps.map ChildParams.name).Nodup := by
  by_contra hnot
  rw [← specsOf_names] at hnot
  obtain h | h := h
  · exact h (topoOrder_of_not_nodup hnot)
  · rw [h] at hnot
    exact hnot List.nodup_nil

/-- The bring-up order of an orderable configuration. -/
theorem Orderable.topo {ps : List ChildParams} (h : Orderable ps) :
    DepsFirst (fun n => (declOf ps n).spec.dependsOn) [] (topoOrder (specsOf ps)) ∧
      (topoOrder (specsOf ps)).Perm (ps.map ChildParams.name) := by
  rw [← specsOf_names]
  refine topoOrder_spec ?_ h
  intro s hs
  obtain ⟨p, hp, rfl⟩ := List.mem_map.mp hs
  exact congrArg (fun d => d.spec.dependsOn) (declOf_name h.nodup hp)

/-- `load_children_from_params`: refused when a command is empty, or when the
dependencies admit no order (a cycle, an unknown or a repeated name). -/
def loadChildrenFromParams (ps : List ChildParams) : Option Roster :=
  if ps.any fun p => p.cmd.isEmpty then none
  else if h : Orderable ps then
    some
      { names := (ps.map ChildParams.name).insertionSort (· ≤ ·)
        decl := declOf ps
        topo := topoOrder (specsOf ps)
        sorted := by
          have hsorted := List.pairwise_insertionSort (· ≤ ·) (ps.map ChildParams.name)
          have hnodup : ((ps.map ChildParams.name).insertionSort (· ≤ ·)).Nodup :=
            (List.perm_insertionSort _ _).nodup_iff.mpr h.nodup
          exact (hsorted.and hnodup).imp fun h => lt_of_le_of_ne h.1 h.2
        perm := h.topo.2.trans (List.perm_insertionSort _ _).symm
        depsFirst := h.topo.1
        gated := declOf_gated ps }
  else none

namespace Roster

/-- A child's policy. -/
def policy (r : Roster) (n : String) : RestartPolicy := (r.decl n).spec.policy

/-- A child's declared dependencies. -/
def deps (r : Roster) (n : String) : List String := (r.decl n).spec.dependsOn

/-- `transitive_dependents`, dependencies first. -/
def transitiveDependents (r : Roster) (name : String) : List String :=
  scanAffected r.deps r.topo [name]

/-- The mapping that `on_configure` hands to the health feed. -/
def healthMap (r : Roster) : Mapping where
  children := r.names.filter fun n => !(r.decl n).healthNodes.isEmpty
  nodes := fun n => (r.decl n).healthNodes
  sorted := r.sorted.filter _

end Roster

/-! ## The operating system

The answers are not constrained, except that a pid is positive: a property proved for every `Env`
holds whatever processes do and however slow or fast the clock runs. Where time has to pass, or
processes have to stay alive, the theorem says so. -/

/-- What `waitpid(pid, &status, WNOHANG)` answers, as far as the node tells the answers apart. -/
inductive WaitStatus : Type where
  /-- the process is reaped; exit status 0 or not -/
  | exited (ok : Bool)
  | stillRunning
  /-- no such child -/
  | echild
  /-- any other error -/
  | failed
  deriving DecidableEq, Repr

/-- The answers to all the questions, by number. A run with one `Env` stands for any behaviour of
the operating system, since no two questions have the same number. -/
structure Env : Type where
  nowNs : Nat → Int
  posixSpawn : Nat → Option { pid : Int // 0 < pid }
  waitpid : Nat → WaitStatus

/-! ## Children at run time

The operations on one child that the callbacks are made of. Each notes in the log what it has
done, so that "at every spawn" and "since it completed" can be stated without a trace of the
whole run. -/

/-- The dynamic half of `ProcChild`: what supervision changes about a child. -/
structure ProcChild : Type where
  state : ChildState := {}
  pid : Int := -1
  /-- a oneshot child that has finished -/
  completed : Bool := false
  deriving DecidableEq, Repr

/-- A child's phase. -/
def ProcChild.phase (c : ProcChild) : Phase := c.state.phase

/-- An entry of the log. The node keeps no such log; it is what the properties of runs are stated
with, and no operation reads it. -/
inductive Rec : Type where
  /-- the phase of a child has changed -/
  | phase (n : String) (before after : Phase)
  /-- a oneshot child is marked completed -/
  | completed (n : String)
  /-- `spawn_child` was called: the pid on record, whether all dependencies
  were running, and the new pid if there is one -/
  | spawnChild (n : String) (recorded : Int) (depsRunning : Bool) (pid : Option Int)
  /-- the process is known to be gone -/
  | gone (n : String) (pid : Int)
  /-- the process group was killed -/
  | killed (n : String) (pid : Int)
  /-- a node status was reported -/
  | status (st : HealthStatus)
  deriving DecidableEq, Repr

/-- The children, the number of the next question, and the log, newest first. -/
structure Procs : Type where
  child : String → ProcChild := fun _ => {}
  asked : Nat := 0
  log : List Rec := []

namespace Procs

/-- Ask the next question. -/
def ask {α : Type} (answer : Nat → α) (s : Procs) : α × Procs :=
  (answer s.asked, { s with asked := s.asked + 1 })

/-- Change one child. -/
def modify (s : Procs) (n : String) (f : ProcChild → ProcChild) : Procs :=
  { s with child := Function.update s.child n (f (s.child n)) }

/-- Add to the log. -/
def record (s : Procs) (e : Rec) : Procs := { s with log := e :: s.log }

/-- Set a child's supervision state, noting a change of phase. -/
def setState (s : Procs) (n : String) (st : ChildState) : Procs :=
  let before := (s.child n).phase
  let s := s.modify n fun c => { c with state := st }
  if st.phase ≠ before then s.record (.phase n before st.phase) else s

/-- Mark a oneshot child as completed. -/
def complete (s : Procs) (n : String) : Procs :=
  (s.modify n fun c => { c with completed := true }).record (.completed n)

/-- The process on record is gone. -/
def forget (s : Procs) (n : String) : Procs :=
  (s.modify n fun c => { c with pid := -1 }).record (.gone n (s.child n).pid)

end Procs

/-- `deps_all_running`. -/
def depsAllRunning (r : Roster) (s : Procs) (n : String) : Bool :=
  (r.deps n).all fun d => d ∈ r.names && (s.child d).phase = .running

variable (r : Roster) (env : Env)

/-- `spawn_child`: whether there is a process now. -/
def spawnChild (n : String) (s : Procs) : Bool × Procs :=
  let (answer, s) := s.ask env.posixSpawn
  let s := s.record (.spawnChild n (s.child n).pid (depsAllRunning r s n) (answer.map (·.1)))
  match answer with
  -- whatever pid is on record stays there
  | none => (false, s)
  | some pid => (true, s.modify n fun c => { c with pid := pid })

/-- `kill_child`'s retries: up to `retries` calls of `waitpid`. -/
def awaitKilled : Nat → Procs → Procs
  | 0, s => s
  | retries + 1, s =>
    let (answer, s) := s.ask env.waitpid
    match answer with
    | .exited _ => s
    | _ => awaitKilled retries s

/-- `kill_child`: kill the group and reap; the pid is dropped either way. -/
def killChild (n : String) (s : Procs) : Procs :=
  if (s.child n).pid ≤ 0 then s
  else
    let pid := (s.child n).pid
    ((awaitKilled env 20 s).modify n fun c => { c with pid := -1 }).record (.killed n pid)

/-! ## Feeding the state machine

`feed`, `launch` and `cascade_yield` call each other: a spawn that fails feeds a crash, a crash
makes the dependents give way, which feeds them an event each. The functions take the recursive
call as a parameter, and the knot is tied in `feed`, by recursion on the depth. -/

/-- One round of `cascade_yield`: the dependent `m` gives way. -/
def yieldOne (feed : String → Event → Procs → Option Procs) (s : Procs) (m : String) :
    Option Procs :=
  let s := s.modify m fun c => { c with completed := false }
  if (s.child m).phase = .stopped ∨ (s.child m).phase = .fatal then some s
  else feed m .depRestarting s

/-- `cascade_yield`: the transitive dependents give way, furthest first. -/
def cascadeYield (feed : String → Event → Procs → Option Procs) (n : String) (s : Procs) :
    Option Procs :=
  (r.transitiveDependents n).reverse.foldlM (yieldOne feed) s

/-- Announce a spawn, then do it; a failed spawn is born dead. -/
def launch (feed : String → Event → Procs → Option Procs) (n : String) (s : Procs) :
    Option Procs := do
  let s ← feed n .spawned s
  let (ok, s) := spawnChild r env n s
  if ok then some s else feed n .exitedCrash s

/-- From a live phase into `backoff` or `fatal`: the source of a cascade. -/
def died (before after : Phase) : Bool :=
  (before = .running || before = .starting) && (after = .backoff || after = .fatal)

/-- Execute what the state machine asked for. -/
def execute (feed : String → Event → Procs → Option Procs) (a : Action) (nowNs : Int)
    (n : String) (s : Procs) : Option Procs :=
  match a.kind with
  -- a spawn that is not due is left to a later tick
  | .spawn => if a.atNs ≤ nowNs then launch r env feed n s else some s
  | .kill | .markFatal => some (killChild env n s)
  | .none => some s

/-- `feed`, to a given depth of recursion. -/
def feed : Nat → String → Event → Procs → Option Procs
  | 0, _, _, _ => none
  | depth + 1, n, ev, s => do
    let (nowNs, s) := s.ask env.nowNs
    let spec := (r.decl n).spec
    let before := (s.child n).phase
    let (a, st) := transition spec (s.child n).state ev nowNs
    let s := s.setState n st
    let s := if spec.oneshot ∧ ev = .exitedOk ∧ st.phase = .stopped then s.complete n else s
    -- the dependents give way before the action is executed
    let s ← if died before st.phase then cascadeYield r (feed depth) n s else some s
    execute r env (feed depth) a nowNs n s

/-- Deep enough for every call: the event from outside, the crash that follows if it launches a
child and the spawn fails, and the giving way of the dependents. -/
def feedDepth : Nat := 3

/-- `feed`, as called from outside. -/
def feedChild (n : String) (ev : Event) (s : Procs) : Option Procs := feed r env feedDepth n ev s

/-! ## The callbacks

The node is single-threaded: the executor runs one callback at a time, and a callback runs to its
end. So a run is a sequence of callbacks in any order the lifecycle admits, and what happens
inside one is a function. -/

/-- One round of `try_bring_up`. -/
def bringUp (s : Procs) (n : String) : Option Procs :=
  if (s.child n).phase ≠ .stopped ∨ (s.child n).completed then some s
  else if !depsAllRunning r s n then some s
  else launch r env (feedChild r env) n s

/-- `try_bring_up`. -/
def tryBringUp (s : Procs) : Option Procs := r.topo.foldlM (bringUp r env) s

/-- `tick` part 1, for a process that `waitpid` finds alive. -/
def tickAlive (nowNs : Int) (n : String) (s : Procs) : Option Procs :=
  if (s.child n).phase = .starting then
    -- a gated child waits for the health feed
    if !(r.decl n).healthGated then feedChild r env n .running s else some s
  else if (s.child n).phase = .running ∧
      nowNs - (s.child n).state.phaseSinceNs ≥ (r.policy n).windowNs then
    feedChild r env n .runningStable s
  else some s

/-- `tick` part 2: the backoff has expired. -/
def tickBackoff (nowNs : Int) (n : String) (s : Procs) : Option Procs :=
  if (s.child n).phase = .backoff ∧ nowNs ≥ (s.child n).state.resumeAtNs then
    feedChild r env n .tick s
  else some s

/-- `tick` part 3: the start takes too long. -/
def tickTimeout (nowNs : Int) (n : String) (s : Procs) : Option Procs :=
  if (s.child n).phase = .starting ∧ 0 < (s.child n).pid ∧
      nowNs - (s.child n).state.phaseSinceNs > (r.policy n).startupTimeoutNs then
    feedChild r env n .startTimeout (killChild env n s)
  else some s

/-- `tick`'s loop body. -/
def tickChild (nowNs : Int) (s : Procs) (n : String) : Option Procs :=
  let timers (s : Procs) : Option Procs := do
    tickTimeout r env nowNs n (← tickBackoff r env nowNs n s)
  if 0 < (s.child n).pid then
    let (answer, s) := s.ask env.waitpid
    match answer with
    | .exited ok => feedChild r env n (if ok then .exitedOk else .exitedCrash) (s.forget n)
    | .stillRunning => do timers (← tickAlive r env nowNs n s)
    -- reaped by somebody else
    | .echild => feedChild r env n .exitedCrash (s.forget n)
    -- no news of the process
    | .failed => timers s
  else timers s

/-- `tick`. -/
def tick (s : Procs) : Option Procs := do
  let (nowNs, s) := s.ask env.nowNs
  tryBringUp r env (← r.names.foldlM (tickChild r env nowNs) s)

/-- A pass of `teardown_children`'s grace loop over one child; the flag says
whether something is still alive. -/
def graceChild (x : Bool × Procs) (n : String) : Bool × Procs :=
  if 0 < (x.2.child n).pid then
    let (answer, s) := x.2.ask env.waitpid
    match answer with
    | .exited _ => (x.1, s.forget n)
    -- also after an error of `waitpid`
    | _ => (true, s)
  else x

/-- `teardown_children`'s grace loop. -/
def graceLoop : Nat → Procs → Procs
  | 0, s => s
  | rounds + 1, s =>
    let (alive, s) := r.names.foldl (graceChild env) (false, s)
    if alive then graceLoop rounds s else s

/-- `teardown_children`: SIGTERM (which changes nothing on record), a grace
period, then SIGKILL. The phases are left as they are. -/
def teardownChildren (s : Procs) : Procs :=
  r.names.foldl (fun s n => if 0 < (s.child n).pid then killChild env n s else s)
    (graceLoop r env 20 s)

/-- The node: children, health feed, and whether the tick timer exists. -/
structure SupervisorNode : Type where
  procs : Procs := {}
  healthFeed : HealthFeed
  tickTimer : Bool := false

/-- The node after `on_configure`. -/
def SupervisorNode.configured : SupervisorNode where
  healthFeed := .new r.healthMap

/-- What the executor calls. Configuration is not among them: it has led to the roster, and the
runs begin after it. -/
inductive Callback : Type where
  | onActivate
  | onDeactivate
  | tick
  | healthReport (msg : List HealthStatus)
  deriving DecidableEq, Repr

/-- The feed's `on_health`: an alive or lost signal for a child. -/
def onHealth (s : Procs) (signal : String × Bool) : Option Procs :=
  if signal.1 ∈ r.names then
    feedChild r env signal.1 (if signal.2 then .healthOk else .healthLost) s
  else some s

/-- A `/health/report` message. The signals do not reach back into the feed, so
they are handled after the message has been evaluated. -/
def onHealthReport (msg : List HealthStatus) (node : SupervisorNode) : Option SupervisorNode := do
  let (healthFeed, signals) := dispatch node.healthFeed msg
  let procs := { node.procs with log := (msg.map Rec.status).reverse ++ node.procs.log }
  let procs ← signals.foldlM (onHealth r env) procs
  some { node with procs := procs, healthFeed := healthFeed }

/-- One callback. -/
def step (node : SupervisorNode) : Callback → Option SupervisorNode
  | .onActivate => do
    let procs ← tryBringUp r env node.procs
    some { node with procs := procs, tickTimer := true }
  | .onDeactivate =>
    some { node with procs := teardownChildren r env node.procs, tickTimer := false }
  | .tick => do
    let procs ← tick r env node.procs
    some { node with procs := procs }
  | .healthReport msg => onHealthReport r env msg node

/-- The lifecycle alternates activation and deactivation, and a tick needs the
timer. -/
def enabled (node : SupervisorNode) : Callback → Prop
  | .onActivate => node.tickTimer = false
  | .onDeactivate => node.tickTimer = true
  | .tick => node.tickTimer = true
  | .healthReport _ => True

instance (node : SupervisorNode) : (cb : Callback) → Decidable (enabled node cb)
  | .onActivate => inferInstanceAs (Decidable (node.tickTimer = false))
  | .onDeactivate => inferInstanceAs (Decidable (node.tickTimer = true))
  | .tick => inferInstanceAs (Decidable (node.tickTimer = true))
  | .healthReport _ => inferInstanceAs (Decidable True)

/-- One callback as a labelled step. -/
def NodeStep (node : SupervisorNode) (cb : Callback) (node' : SupervisorNode) : Prop :=
  enabled node cb ∧ step r env node cb = some node'

/-- The same, as a function. -/
def advance (node : SupervisorNode) (cb : Callback) : Option SupervisorNode :=
  if enabled node cb then step r env node cb else none

theorem advance_step (node : SupervisorNode) (cb : Callback) (node' : SupervisorNode)
    (h : advance r env node cb = some node') : NodeStep r env node cb node' := by
  simp only [advance] at h
  split at h
  · next henabled => exact ⟨henabled, h⟩
  · cases h

end AmrFramework.Monitoring
