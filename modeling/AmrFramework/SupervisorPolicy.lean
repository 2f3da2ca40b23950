import Mathlib.Data.List.Perm.Subperm
import AmrFramework.DependencyOrder

/-!
# The supervisor's policy

The pure half of process supervision:

* `transition` — the state machine of one child,
  `stopped → starting → running`, `backoff` after a failure and `fatal` when
  the restart budget is spent. It returns the action to be executed.
* `backoffNs` — the exponential backoff with its cap.
* `topoOrder` — the order in which children are brought up; empty when the
  declared dependencies do not admit one.

Times are nanoseconds and counters are unbounded integers.
-/

namespace AmrFramework.Monitoring

open DependencyOrder

/-! ## The data

The types of the header, field by field, with its defaults. A state carries the time of the last
change of phase, from which the node judges whether a start takes too long and whether a child
has been running stably. -/

/-- Restart budget and backoff parameters, with the defaults of the header. -/
structure RestartPolicy : Type where
  /-- more failures than this → `fatal` -/
  maxRestarts : Int := 5
  /-- running this long clears the counters -/
  windowNs : Int := 300000000000
  backoffBaseNs : Int := 1000000000
  backoffMaxNs : Int := 30000000000
  /-- `starting` longer than this counts as a crash -/
  startupTimeoutNs : Int := 20000000000
  deriving DecidableEq, Repr

/-- The declaration of a child. -/
structure ChildSpec : Type where
  name : String
  dependsOn : List String := []
  /-- exit 0 means done, not dead -/
  oneshot : Bool := false
  policy : RestartPolicy := {}
  deriving DecidableEq, Repr

/-- The phases of a child. `fatal` is left by nothing that the state machine does. -/
inductive Phase : Type where
  | stopped | starting | running | backoff | fatal
  deriving DecidableEq, Repr

/-- The supervision state of a child. -/
structure ChildState : Type where
  phase : Phase := .stopped
  restartsInWindow : Int := 0
  phaseSinceNs : Int := 0
  resumeAtNs : Int := 0
  backoffStep : Int := 0
  deriving DecidableEq, Repr

/-- What the node feeds to the state machine. Exits and timeouts are found by the tick, health
signals come from the feed, and the rest is fed by the node itself. -/
inductive Event : Type where
  | spawned | running | exitedOk | exitedCrash | startTimeout | depRestarting
  | runningStable | tick | healthOk | healthLost
  deriving DecidableEq, Repr

/-- The kinds of action. -/
inductive ActionKind : Type where
  | none | spawn | kill | markFatal
  deriving DecidableEq, Repr

/-- What the state machine asks the node to do. A spawn has a time before which it is not to be
done. -/
structure Action : Type where
  kind : ActionKind := .none
  /-- when to spawn -/
  atNs : Int := 0
  deriving DecidableEq, Repr

/-! ## The state machine

`transition` matches on the phase first and on the event then, as the `switch` of the source
does, and ignores every event that a phase does not mention. All failures go through
`enterBackoff`, with the kind of action that tells a crash (spawn again) from a lost child (kill
first). -/

/-- `backoff_ns`'s loop: double, and stop at the cap. -/
def backoffLoop (p : RestartPolicy) (v : Int) : Nat → Int
  | 0 => if v < p.backoffMaxNs then v else p.backoffMaxNs
  | i + 1 => if 2 * v ≥ p.backoffMaxNs then p.backoffMaxNs else backoffLoop p (2 * v) i

/-- The backoff before restart number `step`. -/
def backoffNs (p : RestartPolicy) (step : Int) : Int :=
  if step ≤ 0 then p.backoffBaseNs else backoffLoop p p.backoffBaseNs step.toNat

/-- A failure: into `backoff`, or into `fatal` when the budget is spent. -/
def enterBackoff (p : RestartPolicy) (st : ChildState) (nowNs : Int) (kind : ActionKind) :
    Action × ChildState :=
  let restarts := st.restartsInWindow + 1
  if restarts > p.maxRestarts then
    ({ kind := .markFatal, atNs := nowNs },
      { st with restartsInWindow := restarts, phase := .fatal, phaseSinceNs := nowNs })
  else
    let resumeAt := nowNs + backoffNs p st.backoffStep
    ({ kind := kind, atNs := resumeAt },
      { phase := .backoff
        restartsInWindow := restarts
        phaseSinceNs := nowNs
        resumeAtNs := resumeAt
        backoffStep := st.backoffStep + 1 })

/-- A oneshot child has done its work. -/
def finish (st : ChildState) (nowNs : Int) : ChildState :=
  { st with phase := .stopped, phaseSinceNs := nowNs, restartsInWindow := 0, backoffStep := 0 }

/-- One transition of one child: the action for the node to execute, and the new state. An event
that the phase does not mention changes nothing and asks for nothing. -/
def transition (spec : ChildSpec) (st : ChildState) (ev : Event) (nowNs : Int) :
    Action × ChildState :=
  let p := spec.policy
  match st.phase with
  | .stopped =>
    match ev with
    | .spawned => ({}, { st with phase := .starting, phaseSinceNs := nowNs })
    | _ => ({}, st)
  | .starting =>
    match ev with
    | .running | .healthOk => ({}, { st with phase := .running, phaseSinceNs := nowNs })
    | .exitedOk =>
      if spec.oneshot then ({}, finish st nowNs) else enterBackoff p st nowNs .spawn
    | .exitedCrash | .startTimeout => enterBackoff p st nowNs .spawn
    | .depRestarting =>
      ({ kind := .kill, atNs := nowNs }, { st with phase := .stopped, phaseSinceNs := nowNs })
    | _ => ({}, st)
  | .running =>
    match ev with
    | .exitedOk =>
      if spec.oneshot then ({}, finish st nowNs) else enterBackoff p st nowNs .spawn
    | .exitedCrash => enterBackoff p st nowNs .spawn
    -- the process may still be there: kill it, and let the tick spawn a new one
    | .healthLost => enterBackoff p st nowNs .kill
    | .depRestarting =>
      ({ kind := .kill, atNs := nowNs }, { st with phase := .stopped, phaseSinceNs := nowNs })
    | .runningStable => ({}, { st with restartsInWindow := 0, backoffStep := 0 })
    | _ => ({}, st)
  | .backoff =>
    match ev with
    | .tick =>
      if nowNs ≥ st.resumeAtNs then
        ({ kind := .spawn, atNs := nowNs },
          { st with phase := .starting, phaseSinceNs := nowNs })
      else ({}, st)
    | .depRestarting => ({}, { st with phase := .stopped, phaseSinceNs := nowNs })
    -- `spawned` is ignored here, also when it announces an immediate respawn
    | _ => ({}, st)
  | .fatal => ({}, st)

/-- Over budget. -/
theorem enterBackoff_fatal {p : RestartPolicy} {st : ChildState} (t : Int) (kind : ActionKind)
    (h : st.restartsInWindow + 1 > p.maxRestarts) :
    enterBackoff p st t kind =
      ({ kind := .markFatal, atNs := t },
        { st with
          restartsInWindow := st.restartsInWindow + 1, phase := .fatal, phaseSinceNs := t }) :=
  if_pos h

/-- Within budget. -/
theorem enterBackoff_backoff {p : RestartPolicy} {st : ChildState} (t : Int) (kind : ActionKind)
    (h : ¬ st.restartsInWindow + 1 > p.maxRestarts) :
    enterBackoff p st t kind =
      ({ kind := kind, atNs := t + backoffNs p st.backoffStep },
        { phase := .backoff
          restartsInWindow := st.restartsInWindow + 1
          phaseSinceNs := t
          resumeAtNs := t + backoffNs p st.backoffStep
          backoffStep := st.backoffStep + 1 }) :=
  if_neg h

/-- Either way the child is down. -/
theorem enterBackoff_phase (p : RestartPolicy) (st : ChildState) (t : Int) (kind : ActionKind) :
    (enterBackoff p st t kind).2.phase = .backoff ∨ (enterBackoff p st t kind).2.phase = .fatal := by
  by_cases h : st.restartsInWindow + 1 > p.maxRestarts
  · rw [enterBackoff_fatal t kind h]
    exact Or.inr rfl
  · rw [enterBackoff_backoff t kind h]
    exact Or.inl rfl

/-- A phase with a process. -/
def Phase.live : Phase → Bool
  | .starting | .running => true
  | .stopped | .backoff | .fatal => false

theorem Phase.live_iff (p : Phase) : p.live = true ↔ p = .starting ∨ p = .running := by
  cases p <;> simp [Phase.live]

theorem Phase.ne_fatal_of_live {p : Phase} (h : p.live = true) : p ≠ .fatal := by
  rintro rfl
  cases h

/-! What each event does, by phase. -/

section Transition

variable {spec : ChildSpec} {st : ChildState} {t : Int}

theorem transition_spawned (h : st.phase = .stopped) :
    transition spec st .spawned t = ({}, { st with phase := .starting, phaseSinceNs := t }) := by
  unfold transition
  rw [h]

theorem transition_spawned_ignored (h : st.phase ≠ .stopped) :
    transition spec st .spawned t = ({}, st) := by
  unfold transition
  cases hp : st.phase <;> simp_all

/-- The confirmations: seen alive, or reported OK. -/
theorem transition_confirm (h : st.phase = .starting) {ev : Event}
    (hev : ev = .running ∨ ev = .healthOk) :
    transition spec st ev t = ({}, { st with phase := .running, phaseSinceNs := t }) := by
  unfold transition
  rw [h]
  obtain rfl | rfl := hev <;> rfl

theorem transition_confirm_ignored (h : st.phase ≠ .starting) {ev : Event}
    (hev : ev = .running ∨ ev = .healthOk) : transition spec st ev t = ({}, st) := by
  unfold transition
  obtain rfl | rfl := hev <;> cases hp : st.phase <;> simp_all

theorem transition_finish (h : st.phase.live = true) (ho : spec.oneshot = true) :
    transition spec st .exitedOk t = ({}, finish st t) := by
  unfold transition
  cases hp : st.phase <;> simp_all [Phase.live]

/-- An exit that is a failure. -/
theorem transition_exit (h : st.phase.live = true) {ev : Event}
    (hev : ev = .exitedCrash ∨ ev = .exitedOk ∧ spec.oneshot = false) :
    transition spec st ev t = enterBackoff spec.policy st t .spawn := by
  unfold transition
  obtain rfl | ⟨rfl, ho⟩ := hev <;> cases hp : st.phase <;> simp_all [Phase.live]

theorem transition_exit_ignored (h : st.phase.live = false) {ev : Event}
    (hev : ev = .exitedCrash ∨ ev = .exitedOk) : transition spec st ev t = ({}, st) := by
  unfold transition
  obtain rfl | rfl := hev <;> cases hp : st.phase <;> simp_all [Phase.live]

theorem transition_startTimeout (h : st.phase = .starting) :
    transition spec st .startTimeout t = enterBackoff spec.policy st t .spawn := by
  unfold transition
  rw [h]

theorem transition_healthLost (h : st.phase = .running) :
    transition spec st .healthLost t = enterBackoff spec.policy st t .kill := by
  unfold transition
  rw [h]

theorem transition_healthLost_ignored (h : st.phase ≠ .running) :
    transition spec st .healthLost t = ({}, st) := by
  unfold transition
  cases hp : st.phase <;> simp_all

theorem transition_depRestarting_live (h : st.phase.live = true) :
    transition spec st .depRestarting t =
      ({ kind := .kill, atNs := t }, { st with phase := .stopped, phaseSinceNs := t }) := by
  unfold transition
  cases hp : st.phase <;> simp_all [Phase.live]

theorem transition_depRestarting_backoff (h : st.phase = .backoff) :
    transition spec st .depRestarting t =
      ({}, { st with phase := .stopped, phaseSinceNs := t }) := by
  unfold transition
  rw [h]

theorem transition_runningStable (h : st.phase = .running) :
    transition spec st .runningStable t =
      ({}, { st with restartsInWindow := 0, backoffStep := 0 }) := by
  unfold transition
  rw [h]

theorem transition_tick (h : st.phase = .backoff) (ht : t ≥ st.resumeAtNs) :
    transition spec st .tick t =
      ({ kind := .spawn, atNs := t }, { st with phase := .starting, phaseSinceNs := t }) := by
  unfold transition
  rw [h]
  exact if_pos ht

theorem transition_tick_early (h : st.phase = .backoff) (ht : ¬ t ≥ st.resumeAtNs) :
    transition spec st .tick t = ({}, st) := by
  unfold transition
  rw [h]
  exact if_neg ht

end Transition

/-! ## The bring-up order

Repeated passes over the declarations, each of which appends the children whose dependencies have
been placed. If a pass makes no progress while children are missing, there is a cycle, and the
order is empty. -/

/-- One pass over the specs: append every child that is not done and whose
dependencies are. -/
def topoPass (order : List String) (s : ChildSpec) : List String :=
  if s.name ∈ order then order
  else if s.dependsOn.all (· ∈ order) then order ++ [s.name]
  else order

/-- Passes, as long as children are missing and the last pass made progress.
One pass per child is enough. -/
def topoLoop (specs : List ChildSpec) : Nat → List String → List String
  | 0, order => order
  | passes + 1, order =>
    if order.length < specs.length then
      let next := specs.foldl topoPass order
      if next = order then order else topoLoop specs passes next
    else order

/-- `topo_order`: empty for a repeated name, an unknown dependency or a cycle. -/
def topoOrder (specs : List ChildSpec) : List String :=
  let names := specs.map ChildSpec.name
  if !decide names.Nodup then []
  else if !(specs.all fun s => s.dependsOn.all (· ∈ names)) then []
  else
    let order := topoLoop specs specs.length []
    if order.length = specs.length then order else []

/-- What a pass preserves: an order of some of the children. -/
theorem topoPass_order {specs : List ChildSpec} {deps : String → List String}
    (hdeps : ∀ s ∈ specs, deps s.name = s.dependsOn) {order : List String}
    (ho : DepsFirst deps [] order ∧ ∀ n ∈ order, n ∈ specs.map ChildSpec.name) {s : ChildSpec}
    (hs : s ∈ specs) :
    DepsFirst deps [] (topoPass order s) ∧
      ∀ n ∈ topoPass order s, n ∈ specs.map ChildSpec.name := by
  simp only [topoPass]
  split_ifs with hdone hready
  · exact ho
  · refine ⟨ho.1.concat List.not_mem_nil hdone ?_, ?_⟩
    · intro d hd
      rw [hdeps s hs] at hd
      exact Or.inr (of_decide_eq_true (List.all_eq_true.mp hready d hd))
    · intro n hn
      obtain hn | hn := List.mem_append.mp hn
      · exact ho.2 n hn
      · rw [List.mem_singleton.mp hn]
        exact List.mem_map_of_mem hs
  · exact ho

/-- What the loop preserves. -/
theorem topoLoop_order {specs : List ChildSpec} {deps : String → List String}
    (hdeps : ∀ s ∈ specs, deps s.name = s.dependsOn) (passes : Nat) {order : List String}
    (ho : DepsFirst deps [] order ∧ ∀ n ∈ order, n ∈ specs.map ChildSpec.name) :
    DepsFirst deps [] (topoLoop specs passes order) ∧
      ∀ n ∈ topoLoop specs passes order, n ∈ specs.map ChildSpec.name := by
  have hpass (l : List ChildSpec) (hl : ∀ s ∈ l, s ∈ specs) {order : List String}
      (ho : DepsFirst deps [] order ∧ ∀ n ∈ order, n ∈ specs.map ChildSpec.name) :
      DepsFirst deps [] (l.foldl topoPass order) ∧
        ∀ n ∈ l.foldl topoPass order, n ∈ specs.map ChildSpec.name := by
    induction l generalizing order with
    | nil => exact ho
    | cons s l ih =>
      exact ih (fun s hs => hl s (List.mem_cons_of_mem _ hs))
        (topoPass_order hdeps ho (hl s (List.mem_cons_self ..)))
  induction passes generalizing order with
  | zero => exact ho
  | succ passes ih =>
    unfold topoLoop
    split
    · dsimp only
      split
      · exact ho
      · exact ih (hpass specs (fun _ hs => hs) ho)
    · exact ho

/-- **An order that `topoOrder` returns is one**: a permutation of the names
in which every dependency comes first. -/
theorem topoOrder_spec {specs : List ChildSpec} {deps : String → List String}
    (hdeps : ∀ s ∈ specs, deps s.name = s.dependsOn)
    (hne : topoOrder specs ≠ [] ∨ specs = []) :
    DepsFirst deps [] (topoOrder specs) ∧
      (topoOrder specs).Perm (specs.map ChildSpec.name) := by
  obtain hne | rfl := hne
  · unfold topoOrder at hne ⊢
    dsimp only at hne ⊢
    split_ifs at hne ⊢ with hnodup hknown hall
    · exact absurd rfl hne
    · exact absurd rfl hne
    · have hstart : DepsFirst deps [] [] ∧ ∀ n ∈ [], n ∈ specs.map ChildSpec.name :=
        ⟨trivial, fun n hn => by cases hn⟩
      obtain ⟨horder, hsub⟩ := topoLoop_order hdeps specs.length hstart
      refine ⟨horder, ?_⟩
      have hlength : (specs.map ChildSpec.name).length = specs.length := List.length_map ..
      exact (List.Nodup.subperm horder.nodup hsub).perm_of_length_le
        (Nat.le_of_eq (hlength.trans hall.symm))
    · exact absurd rfl hne
  · exact ⟨trivial, List.Perm.refl _⟩

end AmrFramework.Monitoring
