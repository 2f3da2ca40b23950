import Mathlib.Tactic.IntervalCases
import AmrFramework.Arrival
import AmrFramework.DecisionGrid
import AmrFramework.PathSmoother

/-!
# Arrival on a planned path

The motor reports an arrival at the end of the path that it follows, and a path is whatever the
planner has published last. A path that was planned for the target ends in the middle of a cell,
the one of the target or, if that is not free, one within `endpoint_snap_radius` of it. So such an
arrival is near the target without being within the tolerance of it (`reached_near_target`).

Nothing is said of a path that was planned for another target and is still the latest one: the
motor follows it all the same.
-/

namespace AmrFramework.Planning

open OccupancyGrid Simulation

universe u

section End

variable {K : Type u} [Field K] [LinearOrder K] [FloorRing K] {planner : AStarPlanner K}
variable {Q : BestFirst.MinQueue (BestFirst.Node Cell K) BestFirst.Node.f}

/-- A plan ends in the middle of the cell that its goal was snapped to: the node that was closed
last is the goal of the search, and reconstruction begins there. -/
theorem AStarPlanner.plan_getLast? {g : OccupancyGrid K} {start goal : Pose K}
    {path : List (Waypoint K)} {last : Waypoint K} (hplan : planner.plan Q g start goal = some path)
    (hlast : path.getLast? = some last) :
    ∃ c, planner.snapEndpoint g (worldToGrid g goal.x goal.y) = (true, c) ∧
      last = gridToWorld g c := by
  rw [plan] at hplan
  split_ifs at hplan with hsnap hsame
  · obtain rfl := Option.some.inj hplan
    cases hlast
  · obtain rfl := Option.some.inj hplan
    rw [not_or, Bool.not_eq_false, Bool.not_eq_false] at hsnap
    exact ⟨_, Prod.ext hsnap.2 hsame.symm, (Option.some.inj hlast).symm⟩
  · rw [not_or, Bool.not_eq_false, Bool.not_eq_false] at hsnap
    obtain ⟨-, hnone⟩ | ⟨_, _, cells, -, -, -, hsome, hvalid, -⟩ :=
      search_cases planner Q (planner.snapEndpoint g (worldToGrid g goal.x goal.y)).2
        (snapEndpoint_traversable hsnap.1)
    · obtain rfl := Option.some.inj (hnone.symm.trans hplan)
      cases hlast
    · obtain rfl := Option.some.inj (hsome.symm.trans hplan)
      rw [List.getLast?_map, hvalid.last, Option.map_some] at hlast
      exact ⟨_, Prod.ext hsnap.2 rfl, (Option.some.inj hlast).symm⟩

end End

/-- A snapped endpoint is within the radius, in the world as in cells. The planner compares
squares in cells, and one cell is `resolution` wide. -/
theorem AStarPlanner.hypot_snapEndpoint_le {planner : AStarPlanner ℝ} {g : OccupancyGrid ℝ}
    {c e : Cell} (hres : 0 < g.resolution) (hradius : 0 ≤ planner.params.endpointSnapRadius)
    (hint : 2 * (truncate (planner.params.endpointSnapRadius / g.resolution) *
      truncate (planner.params.endpointSnapRadius / g.resolution)) < 2 ^ 31)
    (hsnap : planner.snapEndpoint g c = (true, e)) :
    hypot ((gridToWorld g e).x - (gridToWorld g c).x) ((gridToWorld g e).y - (gridToWorld g c).y) ≤
      planner.params.endpointSnapRadius := by
  have hnear : (distSq c e : ℝ) ≤ (planner.params.endpointSnapRadius / g.resolution) ^ 2 := by
    by_cases hc : g.isTraversable c = true
    · rw [snapEndpoint_of_traversable planner hc] at hsnap
      obtain rfl : c = e := congrArg Prod.snd hsnap
      have hzero : distSq c c = 0 := by
        simp [distSq, Cell.offset, squared]
      rw [hzero, Int.cast_zero]
      positivity
    · rw [Bool.not_eq_true] at hc
      obtain ⟨heq, -⟩ | ⟨d, heq, -, hwithin, -⟩ := snapEndpoint_cases planner rfl hres hint hc
      · cases heq.symm.trans hsnap
      · obtain rfl : d = e := congrArg Prod.snd (heq.symm.trans hsnap)
        exact hwithin.2.trans_eq (sq _).symm
  have hroot := Real.sqrt_le_sqrt hnear
  rw [Real.sqrt_sq (div_nonneg hradius hres.le), le_div_iff₀ hres] at hroot
  rw [hypot_gridToWorld hres, GridUpdater.metres, CMath.sqrt_real]
  exact hroot

/-- Smoothing keeps the end, which is put at the end of the samples as it is. -/
theorem PathSmoother.getLast?_smooth (p : PathSmoother ℝ) (path : List (Waypoint ℝ)) :
    (p.smooth path).getLast? = path.getLast? := by
  match path with
  | [] => rfl
  | [a] => rfl
  | [a, b] => rfl
  | a :: b :: c :: rest =>
    have hlong : ¬ (a :: b :: c :: rest).length < 3 := by simp
    simp only [p.smooth_eq, PathSmoother.emitted, if_neg hlong]
    have hlast := p.getLast?_flatMap_emit a b (c :: rest)
    rw [List.getLast?_append, List.getLast?_cons_cons, ← hlast]
    have hsome : ((edges (a :: b :: c :: rest)).flatMap p.emit).getLast?.isSome := by
      rw [hlast]
      rfl
    exact Option.or_of_isSome hsome

end AmrFramework.Planning

namespace AmrFramework.Execution

open Planning (AStarPlanner OccupancyGrid PathSmoother gridToWorld worldToGrid)

/-- `astar_` of the decision node. -/
noncomputable def astar : AStarPlanner ℝ where
  params := { maxIterations := 200000, heuristicWeight := 1, endpointSnapRadius := 0.75 }

/-- A waypoint as the motor gets it from `/planning/path`. -/
def Waypoint.ofPlan (w : Planning.Waypoint ℝ) : Waypoint ℝ := ⟨w.x, w.y⟩

/-- The path was planned for the target on this state of the grid, from wherever the robot was,
and smoothed. The frames of the map and of the odometry are the same. -/
def PlannedOn (grid : OccupancyGrid ℝ) (target : Waypoint ℝ) (path : List (Waypoint ℝ)) : Prop :=
  ∃ Q start waypoints, astar.plan Q grid start ⟨target.x, target.y⟩ = some waypoints ∧
    path = (({} : PathSmoother ℝ).smooth waypoints).map Waypoint.ofPlan

/-- The middle of the cell of a target, which is where a plan that is not snapped ends. -/
noncomputable def Waypoint.cellMiddle (target : Waypoint ℝ) (grid : OccupancyGrid ℝ) : Waypoint ℝ :=
  .ofPlan (gridToWorld grid (worldToGrid grid target.x target.y))

/-- A path that was planned for the target ends near its cell, whether that cell is free or not. -/
theorem PlannedOn.getLast?_near {grid : OccupancyGrid ℝ} {target last : Waypoint ℝ}
    {path : List (Waypoint ℝ)} (h : PlannedOn grid target path) (hres : grid.resolution = 0.05)
    (hlast : path.getLast? = some last) : dist2d last (target.cellMiddle grid) ≤ 0.75 := by
  obtain ⟨Q, start, waypoints, hplan, rfl⟩ := h
  rw [List.getLast?_map, PathSmoother.getLast?_smooth] at hlast
  obtain ⟨w, hw, rfl⟩ := Option.map_eq_some_iff.mp hlast
  obtain ⟨c, hsnap, rfl⟩ := AStarPlanner.plan_getLast? hplan hw
  have hcells : astar.params.endpointSnapRadius / grid.resolution = 15 := by
    norm_num [astar, hres]
  refine AStarPlanner.hypot_snapEndpoint_le (hres ▸ by norm_num) (by norm_num [astar]) ?_ hsnap
  rw [hcells]
  norm_num [truncate]

/-- If the cell is free, the path ends in it. -/
theorem PlannedOn.getLast?_free {grid : OccupancyGrid ℝ} {target last : Waypoint ℝ}
    {path : List (Waypoint ℝ)} (h : PlannedOn grid target path)
    (hfree : grid.isTraversable (worldToGrid grid target.x target.y) = true)
    (hlast : path.getLast? = some last) : last = target.cellMiddle grid := by
  obtain ⟨Q, start, waypoints, hplan, rfl⟩ := h
  rw [List.getLast?_map, PathSmoother.getLast?_smooth] at hlast
  obtain ⟨w, hw, rfl⟩ := Option.map_eq_some_iff.mp hlast
  obtain ⟨c, hsnap, rfl⟩ := AStarPlanner.plan_getLast? hplan hw
  rw [AStarPlanner.snapEndpoint_of_traversable astar hfree] at hsnap
  obtain rfl : worldToGrid grid target.x target.y = c := congrArg Prod.snd hsnap
  rfl

theorem dist2d_triangle (a b c : Waypoint ℝ) : dist2d a c ≤ dist2d a b + dist2d b c := by
  have htriangle := Simulation.hypot_add_le (a.x - b.x) (a.y - b.y) (b.x - c.x) (b.y - c.y)
  rwa [sub_add_sub_cancel, sub_add_sub_cancel] at htriangle

theorem dist2d_comm (a b : Waypoint ℝ) : dist2d a b = dist2d b a :=
  Simulation.hypot_sub_comm (a.x, a.y) (b.x, b.y)

/-- **Arrival**, in every tick of every run. The path that a goal follows is the one that was the
latest when it began. A goal without a path is reported as reached only within the tolerance of
its target; a goal with a path that was planned for its target, within the tolerance of the end of
that path. This end is the middle of the target's cell, if that is free, and else within the
snapping radius of it. -/
theorem reached_near_target {vfhEnabled : Bool} {guardStopDist : ℝ} {guardMinValidEchoes : Int}
    {h : List (MotorEvent ℝ)} {s : MotorState ℝ} {exec : ActiveGoal ℝ}
    (hr : MotorRun vfhEnabled guardStopDist guardMinValidEchoes h s) (hexec : s.exec = some exec)
    (i : ControlInput ℝ) {r : MoveResult ℝ} (hresult : (controlTick i s.node exec).result = some r)
    (hreached : r.reached = true) :
    BeganIn vfhEnabled guardStopDist guardMinValidEchoes h exec ∧
      (exec.received.length < 2 →
        dist2d exec.target ⟨r.finalX, r.finalY⟩ < ({} : PursuitParams ℝ).goalTolerance) ∧
      (2 ≤ exec.received.length → ∀ grid : OccupancyGrid ℝ, grid.resolution = 0.05 →
        PlannedOn grid exec.target exec.received →
          dist2d exec.destination ⟨r.finalX, r.finalY⟩ < ({} : PursuitParams ℝ).goalTolerance ∧
          (grid.isTraversable (worldToGrid grid exec.target.x exec.target.y) = true →
            exec.destination = exec.target.cellMiddle grid) ∧
          dist2d (exec.target.cellMiddle grid) ⟨r.finalX, r.finalY⟩ <
            0.75 + ({} : PursuitParams ℝ).goalTolerance) := by
  have hnear : dist2d exec.destination ⟨r.finalX, r.finalY⟩ <
      ({} : PursuitParams ℝ).goalTolerance := by
    obtain ⟨-, -, -, hx, hy, harrived⟩ := controlTick_of_some hresult
    rw [hx, hy]
    exact (arrived_iff (run_kept hr exec hexec).getLast?_path).mp (harrived hreached)
  refine ⟨run_began hr exec hexec, fun hshort => ?_, fun hlong grid hres hplanned => ?_⟩
  · rwa [ActiveGoal.destination, if_pos hshort] at hnear
  · have hlast : exec.received.getLast? = some exec.destination := by
      have hne : exec.received ≠ [] := List.ne_nil_of_length_pos (two_pos.trans_le hlong)
      rw [ActiveGoal.destination, if_neg (not_lt.mpr hlong), List.getLastD_eq_getLast?,
        List.getLast?_eq_some_getLast hne]
      rfl
    refine ⟨hnear, fun hfree => hplanned.getLast?_free hfree hlast, ?_⟩
    have hsnap := hplanned.getLast?_near hres hlast
    rw [dist2d_comm] at hsnap
    exact (dist2d_triangle _ exec.destination _).trans_lt (add_lt_add_of_le_of_lt hsnap hnear)

/-! ## A target that is not free

The target is the last cell of a row of which only the first two are free. It is snapped to the
second one, half a metre before it. -/

/-- A row of twelve cells, all but the first two of them taken. -/
noncomputable def takenRow : OccupancyGrid ℝ where
  width := 12
  height := 1
  cells := [OccupancyGrid.free, OccupancyGrid.free] ++ .replicate 10 OccupancyGrid.lethal

open Planning (Cell ValidPath PathStep distSq WithinCells)

theorem traversable_takenRow {c : Cell} :
    takenRow.isTraversable c = true ↔ c = ⟨0, 0⟩ ∨ c = ⟨1, 0⟩ := by
  refine ⟨fun hc => ?_, ?_⟩
  · obtain ⟨hx, hy⟩ := OccupancyGrid.inside_iff.mp (OccupancyGrid.inside_of_isTraversable hc)
    obtain ⟨x, y⟩ := c
    have hside : (0 ≤ x ∧ x < 12) ∧ 0 ≤ y ∧ y < 1 := ⟨hx, hy⟩
    obtain rfl : y = 0 := by omega
    by_contra hnot
    have hfree : x ≠ 0 ∧ x ≠ 1 := by
      simpa using hnot
    have htaken : 2 ≤ x := by omega
    obtain ⟨⟨-, hlt⟩, -⟩ := hside
    clear hx hy hnot hfree
    interval_cases x <;> cases hc
  · rintro (rfl | rfl)
    · rfl
    · rfl

/-- The target in the last cell of the row. -/
theorem snap_takenRow : astar.snapEndpoint takenRow ⟨11, 0⟩ = (true, ⟨1, 0⟩) := by
  have hcells : astar.params.endpointSnapRadius / takenRow.resolution = 15 := by
    norm_num [astar, takenRow]
  have hnear : WithinCells (15 : ℝ) ⟨11, 0⟩ ⟨1, 0⟩ := by
    norm_num [WithinCells, distSq, Cell.offset, Planning.squared]
  obtain ⟨-, hnone⟩ | ⟨e, hsnap, htrav, -, hmin⟩ :=
    Planning.snapEndpoint_cases astar hcells (by norm_num [takenRow]) (by norm_num [truncate])
      (show takenRow.isTraversable ⟨11, 0⟩ = false from rfl)
  · exact absurd hnear (hnone _ (traversable_takenRow.mpr (.inr rfl)))
  · obtain rfl | rfl := traversable_takenRow.mp htrav
    · exact absurd (hmin ⟨1, 0⟩ (traversable_takenRow.mpr (.inr rfl)) hnear) (by decide)
    · exact hsnap

/-- The planner goes to the cell beside the first one: half a metre before the target. -/
theorem plan_takenRow (Q) : ∃ waypoints,
    astar.plan Q takenRow ⟨0.025, 0.025⟩ ⟨0.575, 0.025⟩ = some waypoints ∧
      waypoints.head? = some ⟨0.025, 0.025⟩ ∧ waypoints.getLast? = some ⟨0.075, 0.025⟩ := by
  have hstart : worldToGrid takenRow 0.025 0.025 = ⟨0, 0⟩ := by
    norm_num [worldToGrid, takenRow, truncate]
  have hgoal : worldToGrid takenRow 0.575 0.025 = ⟨11, 0⟩ := by
    norm_num [worldToGrid, takenRow, truncate]
  have hfirst : takenRow.isTraversable ⟨0, 0⟩ = true := traversable_takenRow.mpr (.inl rfl)
  have hsnap := AStarPlanner.snapEndpoint_of_traversable astar hfirst
  have hvalid : ValidPath takenRow ⟨0, 0⟩ ⟨1, 0⟩ [⟨0, 0⟩, ⟨1, 0⟩] := by
    refine ⟨rfl, rfl, ?_, ?_⟩
    · simp [traversable_takenRow]
    · refine .cons_cons ⟨by decide, by decide, by decide, by decide⟩ (.singleton _)
  simp only [AStarPlanner.plan, hstart, hgoal, hsnap, snap_takenRow]
  obtain ⟨hnone, -⟩ | ⟨_, _, cells, -, -, -, hsome, hpath, -⟩ :=
    AStarPlanner.search_cases astar Q ⟨1, 0⟩ hfirst
  · exact absurd hvalid
      (AStarPlanner.not_validPath_of_search_eq_none astar Q (by decide) hfirst hnone _)
  · refine ⟨_, hsome, ?_, ?_⟩
    · rw [List.head?_map, hpath.head]
      norm_num [gridToWorld, takenRow]
    · rw [List.getLast?_map, hpath.last]
      norm_num [gridToWorld, takenRow]

/-- The robot stands at the end of the plan when the goal begins. -/
theorem run_takenRow :
    ∃ h node exec, MotorRun false 0.30 0 h ⟨node, some exec⟩ ∧ exec.target = ⟨0.575, 0.025⟩ ∧
      2 ≤ exec.received.length ∧ PlannedOn takenRow exec.target exec.received ∧
      (controlTick (quiet 0) node exec).result = some ⟨true, 0.075, 0.025⟩ := by
  obtain ⟨waypoints, hplan, hhead, hlast⟩ := plan_takenRow (.sorted _)
  obtain ⟨path, hpath⟩ : ∃ path : List (Waypoint ℝ),
      path = (({} : PathSmoother ℝ).smooth waypoints).map Waypoint.ofPlan := ⟨_, rfl⟩
  have hend : path.getLast? = some ⟨0.075, 0.025⟩ := by
    rw [hpath, List.getLast?_map, PathSmoother.getLast?_smooth, hlast]
    rfl
  have hbegin : path.head? = some ⟨0.025, 0.025⟩ := by
    rw [hpath, List.head?_map, PathSmoother.smooth_eq, List.head?_append, hhead]
    rfl
  -- it begins and ends in different places
  have hlong : 2 ≤ path.length := by
    match path, hbegin, hend with
    | [w], hbegin, hend =>
      obtain rfl := Option.some.inj hbegin
      have hx := congrArg Waypoint.x (Option.some.inj hend)
      norm_num at hx
    | _ :: _ :: _, _, _ => simp
  obtain ⟨h, hr⟩ := run_goal (K := ℝ) false 0.30 0 [.odom 0.075 0.025 0 1, .path path]
    ⟨0.575, 0.025⟩ 0
  refine ⟨h, _, _, hr, rfl, hlong, ⟨_, _, waypoints, hplan, hpath⟩, ?_⟩
  have hback : dist2d (⟨0.075, 0.025⟩ : Waypoint ℝ) ⟨0.075, 0.025⟩ = 0 :=
    dist2d_eq le_rfl (by norm_num)
  rw [controlTick, if_neg (by simp [quiet]), if_pos]
  · rfl
  · have hfollows : (if path.length < 2 then [(⟨0.075, 0.025⟩ : Waypoint ℝ), ⟨0.575, 0.025⟩]
        else path).getLast? = some ⟨0.075, 0.025⟩ := by
      rw [if_neg (not_lt.mpr hlong)]
      exact hend
    refine (arrived_iff hfollows).mpr ?_
    apply lt_of_eq_of_lt hback
    norm_num

/-- It arrives in the cell that the plan ends in. -/
theorem reached_near_target_takenRow :
    ∃ h node exec, MotorRun false 0.30 0 h ⟨node, some exec⟩ ∧
      dist2d exec.destination ⟨0.075, 0.025⟩ < ({} : PursuitParams ℝ).goalTolerance ∧
      dist2d (exec.target.cellMiddle takenRow) ⟨0.075, 0.025⟩ <
        0.75 + ({} : PursuitParams ℝ).goalTolerance := by
  obtain ⟨h, node, exec, hr, -, hlong, hplanned, hresult⟩ := run_takenRow
  obtain ⟨hend, -, hcell⟩ :=
    (reached_near_target hr rfl (quiet 0) hresult rfl).2.2 hlong takenRow rfl hplanned
  exact ⟨h, node, exec, hr, hend, hcell⟩

/-- It does not arrive at the target. -/
theorem reached_far_from_target :
    ∃ h, ∃ s : MotorState ℝ, ∃ exec i r, MotorRun false 0.30 0 h s ∧ s.exec = some exec ∧
      PlannedOn takenRow exec.target exec.received ∧
      (controlTick i s.node exec).result = some r ∧ r.reached = true ∧
      ({} : PursuitParams ℝ).goalTolerance ≤ dist2d exec.target ⟨r.finalX, r.finalY⟩ := by
  obtain ⟨h, node, exec, hr, htarget, -, hplanned, hresult⟩ := run_takenRow
  have hdist : dist2d (⟨0.575, 0.025⟩ : Waypoint ℝ) ⟨0.075, 0.025⟩ = 0.5 :=
    dist2d_eq (by norm_num) (by norm_num)
  refine ⟨h, _, exec, quiet 0, _, hr, rfl, hplanned, hresult, rfl, ?_⟩
  rw [htarget, hdist]
  norm_num

end AmrFramework.Execution
