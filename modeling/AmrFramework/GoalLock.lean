import AmrFramework.DecisionNode

/-!
# The goal lock

`active_goal_` keeps perception from sending a second goal. It is set when a goal
is accepted: between the sending and the response nothing is locked, and a task
goal that changes meanwhile is sent at once. The result of either goal then
clears the handle, whichever it is.

The node has one goal at a time exactly in the runs in which perception never
sends while a goal waits for its response.
-/

namespace AmrFramework.Planning

open Runs

/-- One goal is outstanding at most, and the handle is set while one is executed, and only then.
A goal that awaits its response is outstanding, too. -/
structure World.Single (w : World) : Prop where
  outstanding : w.awaiting.length + w.executing.length ≤ 1
  handle : w.node.activeGoal.isSome = true ↔ w.executing ≠ []

/-- Perception sends no goal while one waits for its response. -/
def Unhurried (w : World) : Callback → Prop
  | .perception env => w.Sends env → w.awaiting = []
  | .other _ => True

instance (w : World) : (c : Callback) → Decidable (Unhurried w c)
  | .perception env => inferInstanceAs (Decidable (w.Sends env → w.awaiting = []))
  | .other _ => .isTrue trivial

variable {w : World}

/-! ## One callback

Starting from a single goal, every callback but one kind keeps it single: a goal that ends takes
the handle with it, and a rejected one leaves room for its retry. What is left is a call of
`on_perception` that sends. -/

theorem World.Single.congr (h : w.Single) {w' : World} (hawaiting : w'.awaiting = w.awaiting)
    (hexecuting : w'.executing = w.executing)
    (hactive : w'.node.activeGoal = w.node.activeGoal) : w'.Single := by
  refine ⟨?_, ?_⟩
  · rw [hawaiting, hexecuting]
    exact h.outstanding
  · rw [hactive, hexecuting]
    exact h.handle

/-- A call of `on_perception` sends only when no handle is set, and then the goal is single
afterwards exactly when none was waiting. -/
theorem World.Single.onPerception_iff (h : w.Single) (env : PerceptionEnv) :
    (w.onPerception env).Single ↔ Unhurried w (.perception env) := by
  obtain ⟨hactive, hexecuting, ⟨hsends, g, hawaiting⟩ | ⟨hsends, hawaiting⟩⟩ :=
    onPerception_cases w env
  · have hnone : w.node.activeGoal = none := hsends.2.2.2.1
    have hidle : w.executing = [] := by
      by_contra hne
      have hsome := h.handle.mpr hne
      rw [hnone] at hsome
      cases hsome
    constructor
    · intro hsingle _
      have hlen := hsingle.outstanding
      rw [hawaiting, List.length_cons] at hlen
      exact List.length_eq_zero_iff.mp (by omega)
    · intro hunhurried
      refine ⟨?_, ?_⟩
      · rw [hawaiting, hunhurried hsends, hexecuting, hidle]
        exact le_rfl
      · rw [hactive, hexecuting]
        exact h.handle
  · exact iff_of_true (h.congr hawaiting hexecuting hactive) fun hs => absurd hs hsends

/-- A goal that waits for its response is the only one. -/
theorem World.Single.of_awaiting (h : w.Single) {g : SentGoal} (hg : g ∈ w.awaiting) :
    w.awaiting = [g] ∧ w.executing = [] := by
  have hlen := h.outstanding
  have hpos := List.length_pos_of_mem hg
  obtain ⟨g', hg'⟩ := List.length_eq_one_iff.mp (show w.awaiting.length = 1 by omega)
  rw [hg', List.mem_singleton] at hg
  rw [hg', hg]
  exact ⟨rfl, List.length_eq_zero_iff.mp (by omega)⟩

/-- A goal that is executed is the only one. -/
theorem World.Single.of_executing (h : w.Single) {g : SentGoal} (hg : g ∈ w.executing) :
    w.awaiting = [] ∧ w.executing = [g] := by
  have hlen := h.outstanding
  have hpos := List.length_pos_of_mem hg
  obtain ⟨g', hg'⟩ := List.length_eq_one_iff.mp (show w.executing.length = 1 by omega)
  rw [hg', List.mem_singleton] at hg
  rw [hg', hg]
  exact ⟨List.length_eq_zero_iff.mp (by omega), rfl⟩

theorem single_of_none (hawaiting : w.awaiting = []) (hexecuting : w.executing = [])
    (hactive : w.node.activeGoal = none) : w.Single := by
  refine ⟨?_, ?_⟩
  · rw [hawaiting, hexecuting]
    exact Nat.zero_le 1
  · rw [hactive, hexecuting]
    exact iff_of_false Bool.false_ne_true (not_not.mpr rfl)

/-- A goal that was rejected leaves room for its retry. -/
theorem single_sendGoal (hawaiting : w.awaiting = []) (hexecuting : w.executing = [])
    (hactive : w.node.activeGoal = none) (target : Point) (d : Dispatch) (ready : Bool) :
    (w.sendGoal target d ready).Single := by
  cases ready with
  | false => exact single_of_none hawaiting hexecuting hactive
  | true =>
    refine ⟨?_, ?_⟩
    · rw [sendGoal_executing, hexecuting]
      exact Nat.succ_le_succ (congrArg List.length hawaiting).le
    · rw [sendGoal_node_activeGoal, sendGoal_executing, hactive, hexecuting]
      exact iff_of_false Bool.false_ne_true (not_not.mpr rfl)

theorem World.Single.accepted (h : w.Single) {g : SentGoal} (hg : g ∈ w.awaiting) (ready : Bool) :
    ({ w.answered g with executing := g :: w.executing }.onGoalResponse (some g) ready).Single := by
  obtain ⟨hawaiting, hexecuting⟩ := h.of_awaiting hg
  have hnone : w.awaiting.erase g = [] := by
    rw [hawaiting, List.erase_cons_head]
  refine ⟨?_, iff_of_true rfl (List.cons_ne_nil g _)⟩
  change (w.awaiting.erase g).length + (g :: w.executing).length ≤ 1
  rw [hnone, hexecuting]
  exact le_rfl

theorem World.Single.rejected (h : w.Single) {g : SentGoal} (hg : g ∈ w.awaiting) (ready : Bool) :
    ((w.answered g).onGoalResponse none ready).Single := by
  obtain ⟨hawaiting, hexecuting⟩ := h.of_awaiting hg
  have hnone : w.awaiting.erase g = [] := by
    rw [hawaiting, List.erase_cons_head]
  have hidle : w.node.activeGoal = none := by
    by_contra hsome
    exact h.handle.mp (Option.isSome_iff_ne_none.mpr hsome) hexecuting
  simp only [World.onGoalResponse]
  split
  · apply single_sendGoal
    · exact hnone
    · exact hexecuting
    · exact hidle
  · exact single_of_none hnone hexecuting hidle

/-- A goal that ends takes the handle with it. -/
theorem World.Single.ended (h : w.Single) {g : SentGoal} (hg : g ∈ w.executing)
    (succeeded : List SentGoal) (code : ResultCode) :
    ({ w.finished g with succeeded := succeeded }.onResult code).Single := by
  obtain ⟨hawaiting, hexecuting⟩ := h.of_executing hg
  have hnone : w.executing.erase g = [] := by
    rw [hexecuting, List.erase_cons_head]
  cases code <;> exact single_of_none hawaiting hnone rfl

/-- **One callback** keeps the goal single exactly when it does not send too early. The callbacks
other than perception send at most when nothing is outstanding. -/
theorem World.Single.step_iff (h : w.Single) {c : Callback} {w' : World}
    (hstep : CallbackStep w c w') : w'.Single ↔ Unhurried w c := by
  cases c with
  | perception env =>
    obtain rfl := Option.some.inj hstep
    exact h.onPerception_iff env
  | other e =>
    refine iff_of_true ?_ trivial
    obtain ⟨-, hsame⟩ | ⟨g, ready, -, hg, rfl⟩ | ⟨g, ready, -, hg, rfl⟩ | ⟨g, -, hg, rfl⟩ |
      ⟨g, code, -, -, hg, rfl⟩ := handle_cases hstep
    · exact h.congr hsame.awaiting hsame.executing hsame.activeGoal
    · exact h.accepted hg ready
    · exact h.rejected hg ready
    · exact h.ended hg _ .succeeded
    · exact h.ended hg _ code

/-! ## Runs

At the begin there is no goal. From there on the two conditions agree step by step, and so they
agree over whole runs. -/

/-- **The goal lock.** In a run, the goal is single at every moment exactly when perception never
sends one while another waits for its response. The lock looks at the handle, which is set by the
response only. -/
theorem single_iff_unhurried (goal : Point) (h : List Callback) (w : World) :
    Run (within World.Single CallbackStep) (.start goal) h w ↔
      Run (only Unhurried CallbackStep) (.start goal) h w := by
  refine Run.within_iff_only ⟨Nat.zero_le 1, ?_⟩ fun _ _ _ hsingle hstep => hsingle.step_iff hstep
  exact iff_of_false Bool.false_ne_true (not_not.mpr rfl)

/-- The task goal changes before the first response. -/
def changeOfMind : List Callback :=
  [.other (.heartbeat "alive"), .perception {}, .other (.goalPose (some 8) (some 0)),
    .perception {}]

/-- Two goals wait for their responses. -/
theorem not_single_changeOfMind :
    ¬ ∀ (goal : Point) (h : List Callback) (w : World),
      Run CallbackStep (.start goal) h w → w.Single := by
  intro hall
  obtain ⟨w, hr, hw⟩ := Run.of_exec_any (f := World.callback) (fun _ _ _ => id) (.start ⟨5, 0⟩)
    changeOfMind (fun w => w.awaiting.length = 2) (by decide +kernel)
  have hle := (hall _ _ w hr).outstanding
  rw [of_decide_eq_true hw] at hle
  omega

end AmrFramework.Planning
