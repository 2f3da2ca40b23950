import AmrFramework.DecisionNode

/-!
# Dropped goals

The gate denies a goal that it takes for dispatched. `on_perception` notes the
goal after `send_goal`, whether that sent it or not; a rejection is answered with
a retry, and an abort with a reset of the gate, but a goal that is canceled, or
rejected for the last time, is still dispatched for the gate.

* `NoDrop` — the gate denies the current goal only for one that is on its way or
  has succeeded;
* `Kept` — what the gate remembers is such a goal, or it remembers nothing;
* `Upheld` — a piece of a callback that keeps it so.
-/

namespace AmrFramework.Planning

open Runs

/-- The goals that are on their way or have succeeded. -/
def World.goals (w : World) : List SentGoal := w.awaiting ++ w.executing ++ w.succeeded

/-- One of them is from the dispatch. -/
def World.Carries (w : World) (d : Dispatch) : Prop := ∃ g ∈ w.goals, g.dispatch = d

instance (w : World) (d : Dispatch) : Decidable (w.Carries d) :=
  inferInstanceAs (Decidable (∃ g ∈ w.goals, _))

/-- With fusion ready, a goal is denied only for a dispatch of the same goal that is
on its way or has succeeded. -/
def World.NoDrop (w : World) : Prop :=
  w.node.gate.fusionReady = true → w.node.gate.shouldDispatch w.node.goal = false →
    SameGoal w.node.goal w.noted.goal ∧ w.Carries w.noted

instance (w : World) : Decidable w.NoDrop := inferInstanceAs (Decidable (_ → _ → _ ∧ _))

/-- What the gate remembers is on its way or has succeeded. -/
def World.Backed (w : World) : Prop := w.node.gate.dispatched = true → w.Carries w.noted

structure World.Kept (w : World) : Prop where
  lastMap : w.node.gate.lastMap = w.noted.goal
  backed : w.Backed

/-- The goal that a call notes was sent and is on its way; the goal that the gate
remembers is not canceled, and when it is rejected, it is sent again. -/
def Upheld (w : World) : Piece → Prop
  | .note d => w.Carries d
  | .other (.response g false ready) => w.node.gate.dispatched = true →
    (w.answered g).Carries w.noted ∨
      (ready = true ∧ shouldRetry w.node.retryCount = true ∧ w.lastDispatch = w.noted)
  | .other (.result g .canceled) => w.node.gate.dispatched = true →
    (w.finished g).Carries w.noted
  | _ => True

instance (w : World) : (p : Piece) → Decidable (Upheld w p)
  | .begin => .isTrue trivial
  | .lock .. => .isTrue trivial
  | .send .. => .isTrue trivial
  | .note d => inferInstanceAs (Decidable (w.Carries d))
  | .other (.amclPose _) => .isTrue trivial
  | .other (.heartbeat _) => .isTrue trivial
  | .other (.goalPose ..) => .isTrue trivial
  | .other (.response _ true _) => .isTrue trivial
  | .other (.response _ false _) => inferInstanceAs (Decidable (_ → _ ∨ _))
  | .other (.result _ .canceled) => inferInstanceAs (Decidable (_ → _))
  | .other (.result _ .succeeded) => .isTrue trivial
  | .other (.result _ .aborted) => .isTrue trivial
  | .other (.result _ .unknown) => .isTrue trivial

/-- The outcome of a piece that is taken while the memory of the gate is kept. -/
def Outcome (w : World) (p : Piece) (w' : World) : Prop :=
  w'.node.gate.lastMap = w'.noted.goal ∧ (w'.Backed ↔ Upheld w p)

variable {w w' : World}

theorem mem_goals {g : SentGoal} :
    g ∈ w.goals ↔ g ∈ w.awaiting ∨ g ∈ w.executing ∨ g ∈ w.succeeded := by
  rw [World.goals, List.mem_append, List.mem_append, or_assoc]

theorem carries_sendGoal (target : Point) (d d' : Dispatch) (ready : Bool) :
    (w.sendGoal target d ready).Carries d' ↔ w.Carries d' ∨ (ready = true ∧ d = d') := by
  cases ready with
  | false => exact (or_iff_left fun hd => Bool.false_ne_true hd.1).symm
  | true =>
    have hgoals : (w.sendGoal target d true).goals = ⟨w.sends + 1, target, d⟩ :: w.goals := rfl
    rw [World.Carries, hgoals, List.exists_mem_cons_iff, or_comm]
    exact or_congr_right (and_iff_right rfl).symm

/-- The memory of the gate is kept, or cleared, and no goal is lost. -/
theorem World.Kept.mono (h : w.Kept) (hlast : w'.node.gate.lastMap = w.node.gate.lastMap)
    (hnoted : w'.noted = w.noted)
    (hdispatched : w'.node.gate.dispatched = true → w.node.gate.dispatched = true)
    (hgoals : ∀ g ∈ w.goals, g ∈ w'.goals) : w'.Kept := by
  refine ⟨?_, fun hmem => ?_⟩
  · rw [hlast, hnoted]
    exact h.lastMap
  · rw [hnoted]
    obtain ⟨g, hg, hd⟩ := h.backed (hdispatched hmem)
    exact ⟨g, hgoals g hg, hd⟩

/-- The memory of the gate is the same. -/
theorem World.Kept.same (h : w.Kept) {p : Piece} (hgate : w'.node.gate = w.node.gate)
    (hnoted : w'.noted = w.noted)
    (hbacked : (w.node.gate.dispatched = true → w'.Carries w.noted) ↔ Upheld w p) :
    Outcome w p w' := by
  rw [Outcome, World.Backed, hgate, hnoted]
  exact ⟨h.lastMap, hbacked⟩

/-- The memory of the gate is kept anyhow. -/
theorem World.Kept.outcome (h : w'.Kept) {p : Piece} (hupheld : Upheld w p) : Outcome w p w' :=
  ⟨h.lastMap, iff_of_true h.backed hupheld⟩

/-! ## One piece

What the gate remembers is backed by a goal that was sent. Each piece of a callback either keeps
it so or does not, and for each one there is a condition that says which. -/

/-- `send_goal` loses no goal. -/
theorem World.Kept.dispatch (h : w.Kept) (goal : Point) (t : Transform) (ready : Bool) :
    (w.dispatch goal t ready).Kept := by
  cases ready with
  | false => exact h.mono rfl rfl id fun _ hg => hg
  | true => exact h.mono rfl rfl id fun _ hg => List.mem_cons_of_mem _ hg

/-- An accepted goal is executed. -/
theorem World.Kept.accepted (h : w.Kept) {g : SentGoal} (ready : Bool) :
    ({ w.answered g with executing := g :: w.executing }.onGoalResponse (some g) ready).Kept := by
  refine h.mono rfl rfl id fun g' hg' => ?_
  have hmem : g' ∈ w.awaiting → g' = g ∨ g' ∈ w.awaiting.erase g := fun hawaiting => by
    by_cases hne : g' = g
    · exact .inl hne
    · exact .inr ((List.mem_erase_of_ne hne).mpr hawaiting)
  obtain hawaiting | hexecuting | hsucceeded := mem_goals.mp hg'
  · obtain rfl | herase := hmem hawaiting
    · exact mem_goals.mpr (.inr (.inl (List.mem_cons_self ..)))
    · exact mem_goals.mpr (.inl herase)
  · exact mem_goals.mpr (.inr (.inl (List.mem_cons_of_mem _ hexecuting)))
  · exact mem_goals.mpr (.inr (.inr hsucceeded))

/-- A rejected goal is sent again, or it is gone. -/
theorem World.Kept.rejected (h : w.Kept) (g : SentGoal) (ready : Bool) :
    Outcome w (.other (.response g false ready)) ((w.answered g).onGoalResponse none ready) := by
  simp only [World.onGoalResponse]
  split
  · next hretry =>
    have hretry' : shouldRetry w.node.retryCount = true := hretry
    refine h.same ?_ ?_ (imp_congr_right fun _ => ?_)
    · cases ready <;> rfl
    · cases ready <;> rfl
    · refine (carries_sendGoal ..).trans (or_congr_right ?_)
      exact and_congr_right fun _ => (and_iff_right hretry').symm
  · next hretry =>
    refine h.same rfl rfl (imp_congr_right fun _ => ?_)
    exact (or_iff_left fun hagain => hretry hagain.2.1).symm

/-- A goal that ends otherwise than by success is gone; the gate forgets it, unless
it is canceled. -/
theorem World.Kept.ended (h : w.Kept) (g : SentGoal) {code : ResultCode}
    (hcode : code ≠ .succeeded) :
    Outcome w (.other (.result g code)) ((w.finished g).onResult code) := by
  cases code with
  | succeeded => exact absurd rfl hcode
  | canceled => exact ⟨h.lastMap, Iff.rfl⟩
  | aborted => exact ⟨h.lastMap, iff_of_true nofun trivial⟩
  | unknown => exact ⟨h.lastMap, iff_of_true nofun trivial⟩

theorem World.Kept.reached (h : w.Kept) (g : SentGoal) :
    ({ w.finished g with succeeded := g :: w.succeeded }.onResult .succeeded).Kept := by
  refine h.mono rfl rfl id fun g' hg' => ?_
  obtain hawaiting | hexecuting | hsucceeded := mem_goals.mp hg'
  · exact mem_goals.mpr (.inl hawaiting)
  · by_cases hne : g' = g
    · exact mem_goals.mpr (.inr (.inr (List.mem_cons.mpr (.inl hne))))
    · exact mem_goals.mpr (.inr (.inl ((List.mem_erase_of_ne hne).mpr hexecuting)))
  · exact mem_goals.mpr (.inr (.inr (List.mem_cons_of_mem _ hsucceeded)))

theorem upheld_of_not_aboutGoal {e : Event} (he : ¬ e.AboutGoal) : Upheld w (.other e) := by
  cases e with
  | amclPose pose => trivial
  | heartbeat data => trivial
  | goalPose x y => trivial
  | response g accepted ready => exact absurd trivial he
  | result g code => exact absurd trivial he

/-- **One event** that is not a piece of a call of `on_perception`: a response, a result, a
message. The five kinds of event, one lemma for each. -/
theorem World.Kept.handle (h : w.Kept) {e : Event} (hstep : w.handle e = some w') :
    Outcome w (.other e) w' := by
  obtain ⟨he, hsame⟩ | ⟨g, ready, rfl, -, rfl⟩ | ⟨g, ready, rfl, -, rfl⟩ | ⟨g, rfl, -, rfl⟩ |
    ⟨g, code, hcode, rfl, -, rfl⟩ := handle_cases hstep
  · have hgoals : w'.goals = w.goals := by
      rw [World.goals, hsame.awaiting, hsame.executing, hsame.succeeded]
      rfl
    have hkept : w'.Kept := by
      refine h.mono hsame.lastMap hsame.noted (fun hmem => ?_) fun g hg => ?_
      · exact hsame.dispatched ▸ hmem
      · exact hgoals ▸ hg
    exact hkept.outcome (upheld_of_not_aboutGoal he)
  · exact (h.accepted ready).outcome trivial
  · exact h.rejected g ready
  · exact (h.reached g).outcome trivial
  · exact h.ended g hcode

/-- **One piece** of a callback: what the gate remembers is backed afterwards exactly
when the piece was upheld. -/
theorem World.Kept.step (h : w.Kept) {p : Piece} (hstep : PieceStep w p w') : Outcome w p w' := by
  have hcycles : ∀ cycles, { w with cycles := cycles }.Kept := fun _ =>
    h.mono rfl rfl id fun _ hg => hg
  cases p with
  | begin =>
    refine World.Kept.outcome ?_ trivial
    simp only [PieceStep, World.piece] at hstep
    split at hstep
    · exact Option.some.inj hstep ▸ h
    · split at hstep
      · exact Option.some.inj hstep ▸ h
      · exact Option.some.inj hstep ▸ hcycles _
  | lock goal pathFound =>
    refine World.Kept.outcome ?_ trivial
    simp only [PieceStep, World.piece] at hstep
    split at hstep
    · split at hstep
      · exact Option.some.inj hstep ▸ hcycles _
      · split at hstep
        · exact Option.some.inj hstep ▸ hcycles _
        · exact Option.some.inj hstep ▸ hcycles _
    · cases hstep
  | send goal mapToOdom ready =>
    refine World.Kept.outcome ?_ trivial
    simp only [PieceStep, World.piece] at hstep
    split at hstep
    · cases mapToOdom with
      | none => exact Option.some.inj hstep ▸ hcycles _
      | some t => exact Option.some.inj hstep ▸ (hcycles _).dispatch goal t ready
    · cases hstep
  | note d =>
    simp only [PieceStep, World.piece] at hstep
    split at hstep
    · obtain rfl := Option.some.inj hstep
      exact ⟨rfl, imp_iff_right rfl⟩
    · cases hstep
  | other e => exact h.handle hstep

/-! ## Runs

A piece that is not upheld leaves the gate with a memory that nothing backs. The goal is then
denied as soon as it is the current one again and fusion is alive, which a few messages bring
about. -/

theorem shouldDispatch_eq_false {gate : GoalDispatchGate} {goal : Point}
    (hready : gate.fusionReady = true) :
    gate.shouldDispatch goal = false ↔ gate.dispatched = true ∧ SameGoal goal gate.lastMap := by
  rw [GoalDispatchGate.shouldDispatch, if_neg (not_not.mpr hready)]
  split
  · next hsame => exact iff_of_true rfl hsame
  · next hsame => exact iff_of_false (Bool.false_ne_true ∘ Eq.symm) hsame

theorem World.Kept.noDrop (h : w.Kept) : w.NoDrop := by
  intro hready hdenied
  obtain ⟨hdispatched, hsame⟩ := (shouldDispatch_eq_false hready).mp hdenied
  rw [h.lastMap] at hsame
  exact ⟨hsame, h.backed hdispatched⟩

theorem sameGoal_self (goal : Point) : SameGoal goal goal := by
  have heps : (0 : ℚ) < kEps := by
    rw [kEps]
    norm_num
  rw [SameGoal, sub_self, sub_self, abs_zero]
  exact ⟨heps, heps⟩

/-- A goal that the gate remembers and that is gone is denied when it is set again and fusion is
alive. -/
theorem drops_of_not_backed (h : ¬ w.Backed) :
    ∃ ps w', Run PieceStep w ps w' ∧ ¬ w'.NoDrop := by
  obtain ⟨hdispatched, hgone⟩ := Classical.not_imp.mp h
  let goal := w.node.gate.lastMap
  have hgoal : PieceStep w (.other (.goalPose (some goal.x) (some goal.y)))
      { w with node.goal := goal } := rfl
  have hbeat : PieceStep { w with node.goal := goal } (.other (.heartbeat "alive"))
      { w with node.goal := goal, node.gate := w.node.gate.setFusionReady true } := rfl
  refine ⟨_, _, (Run.start.snoc hgoal).snoc hbeat, fun hnodrop => ?_⟩
  have hdenied : (w.node.gate.setFusionReady true).shouldDispatch goal = false :=
    (shouldDispatch_eq_false rfl).mpr ⟨hdispatched, sameGoal_self goal⟩
  exact hgone (hnodrop rfl hdenied).2

theorem kept_run {goal : Point} {ps : List Piece}
    (hr : Run (only Upheld PieceStep) (.start goal) ps w) : w.Kept := by
  refine hr.invariant (I := fun _ w => w.Kept) ⟨rfl, nofun⟩ fun _ _ _ _ hkept hstep => ?_
  obtain ⟨hlast, hbacked⟩ := hkept.step hstep.2
  exact ⟨hlast, hbacked.mpr hstep.1⟩

/-- **No goal is dropped** in a run whose pieces are all upheld; and after a piece that is not,
one can be. The first half is an induction over the run, with `Kept` as the invariant. -/
theorem no_goal_dropped (goal : Point) (ps : List Piece) (w : World)
    (hr : Run (only Upheld PieceStep) (.start goal) ps w) :
    w.NoDrop ∧ ∀ p w', PieceStep w p w' → ¬ Upheld w p →
      ∃ ps' w'', Run PieceStep w' ps' w'' ∧ ¬ w''.NoDrop := by
  have hkept := kept_run hr
  refine ⟨hkept.noDrop, fun p w' hstep hnot => drops_of_not_backed fun hbacked => ?_⟩
  exact hnot ((hkept.step hstep).2.mp hbacked)

/-- A goal is rejected once, accepted and reached; the gate denies it throughout. -/
def reachedGoal : List Piece :=
  let first : SentGoal := ⟨1, ⟨5, 0⟩, ⟨1, ⟨5, 0⟩⟩⟩
  let second : SentGoal := ⟨2, ⟨5, 0⟩, ⟨1, ⟨5, 0⟩⟩⟩
  [.other (.heartbeat "alive"), .begin, .lock ⟨5, 0⟩ true, .send ⟨5, 0⟩ (some {}) true,
    .note ⟨1, ⟨5, 0⟩⟩, .other (.response first false true),
    .other (.response second true true), .other (.result second .succeeded)]

theorem no_goal_dropped_reachedGoal :
    ∃ w, Run (only Upheld PieceStep) (.start ⟨5, 0⟩) reachedGoal.reverse w ∧
      w.node.gate.shouldDispatch w.node.goal = false ∧ w.NoDrop := by
  obtain ⟨w, hr, hw⟩ := Run.of_exec_any (f := restrict Upheld World.piece)
    (restrict_only Upheld fun _ _ _ => id) (.start ⟨5, 0⟩) reachedGoal
    (fun w => !w.node.gate.shouldDispatch w.node.goal) (by decide +kernel)
  exact ⟨w, hr, by simpa using hw, (no_goal_dropped _ _ w hr).1⟩

/-- The action server is away when perception sends the goal. -/
def serverAway : List Callback := [.other (.heartbeat "alive"), .perception { ready := false }]

/-- A goal is denied as dispatched and was never sent. -/
theorem drop_serverAway :
    ¬ ∀ (goal : Point) (ps : List Piece) (w : World),
      Run PieceStep (.start goal) ps w → w.NoDrop := by
  intro hall
  obtain ⟨w, hr, hw⟩ := Run.of_exec_any (f := World.callback) (fun _ _ _ => id) (.start ⟨5, 0⟩)
    serverAway (fun w => ¬ w.NoDrop) (by decide +kernel)
  obtain ⟨ps, hps⟩ := run_pieces hr
  exact of_decide_eq_true hw (hall _ _ w hps)

end AmrFramework.Planning
