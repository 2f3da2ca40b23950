import AmrFramework.AStarPlanner
import Mathlib.Data.Int.Interval
import Mathlib.Tactic.Linarith

/-!
# Planned paths

The routes of the search are the paths of traversable cells that do not cut
corners (`route_iff_validPath`), and the octile estimate is consistent along them
when a diagonal step is between one and two long. So a plan is a valid path, a
cheapest one, and there is none only where there is no path.

What a path may do is said once, by `PathStep`, in terms of the grid. The search knows nothing of
grids and the theorems about it speak of routes and estimates, so what has to be shown here is
that the routes are the valid paths, that the keys tell cells apart, and that the estimate is
consistent.
-/

namespace AmrFramework.Planning

open BestFirst

universe u

variable {K : Type u} [Field K]

/-- A step in both directions. -/
def Diagonal (c d : Cell) : Prop := c.x ≠ d.x ∧ c.y ≠ d.y

instance (c d : Cell) : Decidable (Diagonal c d) := inferInstanceAs (Decidable (_ ∧ _))

/-- A step to one of the eight cells around a cell. A diagonal step must find both cells beside
the corner traversable, so that the robot does not cut it. -/
structure PathStep (g : OccupancyGrid K) (c d : Cell) : Prop where
  ne : c ≠ d
  x : |d.x - c.x| ≤ 1
  y : |d.y - c.y| ≤ 1
  corner : Diagonal c d →
    g.isTraversable ⟨d.x, c.y⟩ = true ∧ g.isTraversable ⟨c.x, d.y⟩ = true

/-- A path of traversable cells from `start` to `goal` that does not cut corners. It is stated
without the planner, so that a valid path may be any list of cells, also one that no search would
come up with. -/
structure ValidPath (g : OccupancyGrid K) (start goal : Cell) (path : List Cell) : Prop where
  head : path.head? = some start
  last : path.getLast? = some goal
  traversable : ∀ c ∈ path, g.isTraversable c = true
  steps : path.IsChain (PathStep g)

/-- The steps of a path: the base length of each, and the cost of the cell it enters. -/
def AStarPlanner.pathCost (planner : AStarPlanner K) (g : OccupancyGrid K) : List Cell → K
  | c :: d :: path =>
    (if Diagonal c d then planner.kDiagonal else 1) + (g.costAt d).toNat / 253 +
      planner.pathCost g (d :: path)
  | _ => 0

variable {g : OccupancyGrid K} {c d : Cell}

theorem mem_moves {m : Int × Int} :
    m ∈ kDx.zip kDy ↔ m ≠ (0, 0) ∧ |m.1| ≤ 1 ∧ |m.2| ≤ 1 := by
  obtain ⟨x, y⟩ := m
  simp only [kDx, kDy, List.zip_cons_cons, List.zip_nil_right, List.mem_cons, List.not_mem_nil,
    Prod.mk.injEq, ne_eq, abs_le, or_false]
  constructor
  · omega
  · rintro ⟨hne, ⟨hx, hx'⟩, hy, hy'⟩
    omega

/-- The neighbours of a cell are what a step of a valid path enters from it. A diagonal step
needs both of the cells beside it. -/
theorem mem_neighbours :
    d ∈ neighbours g c ↔ g.isTraversable d = true ∧ PathStep g c d := by
  have hcolumn : c.move ((c.offset d).1, 0) = ⟨d.x, c.y⟩ := by simp [Cell.move, Cell.offset]
  have hrow : c.move (0, (c.offset d).2) = ⟨c.x, d.y⟩ := by simp [Cell.move, Cell.offset]
  have hdiag : Diagonal c d ↔ (c.offset d).1 ≠ 0 ∧ (c.offset d).2 ≠ 0 := by
    simp only [Diagonal, Cell.offset]
    omega
  have hne : c ≠ d ↔ c.offset d ≠ (0, 0) := not_congr Cell.offset_eq_zero.symm
  rw [neighbours, List.mem_filterMap]
  constructor
  · rintro ⟨m, hm, hd⟩
    split_ifs at hd with htrav hcorner
    obtain rfl := Cell.move_eq_iff.mp (Option.some.inj hd)
    rw [Cell.move_offset] at htrav
    rw [hcolumn, hrow] at hcorner
    obtain ⟨hm, hx, hy⟩ := mem_moves.mp hm
    refine ⟨by simpa using htrav, hne.mpr hm, hx, hy, fun hd => ?_⟩
    simpa [hdiag.mp hd] using hcorner
  · rintro ⟨htrav, h⟩
    refine ⟨_, mem_moves.mpr ⟨hne.mp h.ne, h.x, h.y⟩, ?_⟩
    rw [Cell.move_offset, hcolumn, hrow, if_neg (by simp [htrav]), if_neg]
    rintro ⟨hd, hcut⟩
    simp [h.corner (hdiag.mpr hd)] at hcut

namespace AStarPlanner

variable {planner : AStarPlanner K} {start goal : Cell} {path : List Cell}

theorem stepCost_eq : planner.stepCost g c d =
    (if Diagonal c d then planner.kDiagonal else 1) + (g.costAt d).toNat / 253 := by
  have hdiag : Diagonal c d ↔ d.x - c.x ≠ 0 ∧ d.y - c.y ≠ 0 := by
    simp only [Diagonal]
    omega
  simp only [stepCost, hdiag, kCardinal, kCostScale, mul_one_div]

theorem problem_pathCost :
    (planner.problem g start goal).pathCost path = planner.pathCost g path := by
  induction path with
  | nil => rfl
  | cons c path ih =>
    rcases path with _ | ⟨d, path⟩
    · rfl
    · rw [Problem.pathCost, ih, pathCost]
      exact congrArg (· + _) stepCost_eq

/-- Between traversable cells the routes of the search are the valid paths. The start is the one
cell of a route that no step enters, so it is asked for on its own. -/
theorem route_iff_validPath (hstart : g.isTraversable start = true) {k : K} :
    (planner.problem g start goal).Route d path k ↔
      ValidPath g start d path ∧ k = planner.pathCost g path := by
  rw [Problem.route_iff, problem_pathCost]
  constructor
  · rintro ⟨hhead, hlast, hchain, hk⟩
    have htrav : ∀ c ∈ path, g.isTraversable c = true := by
      refine hchain.induction (fun c => g.isTraversable c = true) path
        (fun {c d} hd _ => (mem_neighbours.mp hd).1) fun hne => ?_
      rw [List.head?_eq_some_head hne] at hhead
      rw [Option.some.inj hhead]
      exact hstart
    exact ⟨⟨hhead, hlast, htrav, hchain.imp fun c d hd => (mem_neighbours.mp hd).2⟩, hk⟩
  · rintro ⟨h, hk⟩
    refine ⟨h.head, h.last, ?_, hk⟩
    exact h.steps.imp_of_mem_imp fun c d _ hd hstep =>
      mem_neighbours.mpr ⟨h.traversable d hd, hstep⟩

theorem inside_of_reachable (hstart : g.isTraversable start = true)
    (hd : (planner.problem g start goal).Reachable d) : g.Inside d := by
  obtain ⟨path, k, hroute⟩ := hd
  have hpath := ((route_iff_validPath hstart).mp hroute).1
  exact OccupancyGrid.inside_of_isTraversable
    (hpath.traversable d (List.mem_of_getLast? hpath.last))

end AStarPlanner

theorem toNat_key (hc : g.Inside c) : (key c).toNat = c.x.toNat * 2 ^ 32 + c.y.toNat := by
  obtain ⟨⟨hx, hxw⟩, hy, hyh⟩ := OccupancyGrid.inside_iff.mp hc
  have hw := g.width_lt
  have hh := g.height_lt
  have hlow : c.y.toNat < 2 ^ 32 := by omega
  rw [key, BitVec.toNat_append, BitVec.toNat_ofInt, BitVec.toNat_ofInt,
    Int.emod_eq_of_lt hx (by omega), Int.emod_eq_of_lt hy (by omega),
    ← Nat.shiftLeft_add_eq_or_of_lt hlow, Nat.shiftLeft_eq]

/-- Cells of a grid have different keys: their coordinates are not negative and below `2 ^ 31`. -/
theorem key_inj (hc : g.Inside c) (hd : g.Inside d) (h : key c = key d) : c = d := by
  have hkey := congrArg BitVec.toNat h
  rw [toNat_key hc, toNat_key hd] at hkey
  obtain ⟨⟨hx, hxw⟩, hy, hyh⟩ := OccupancyGrid.inside_iff.mp hc
  obtain ⟨⟨hx', hxw'⟩, hy', hyh'⟩ := OccupancyGrid.inside_iff.mp hd
  have hw := g.width_lt
  have hh := g.height_lt
  obtain ⟨x, y⟩ := c
  obtain ⟨x', y'⟩ := d
  simp only [Cell.mk.injEq] at *
  omega

namespace AStarPlanner

variable {planner : AStarPlanner K} {start goal : Cell}

theorem keyInj (hstart : g.isTraversable start = true) :
    (planner.problem g start goal).KeyInj := fun _ hc _ hd h =>
  key_inj (inside_of_reachable hstart hc) (inside_of_reachable hstart hd) h

/-! ## The octile estimate

The estimate is a weighted sum of two distances of the grid, and a step changes each by as much
as its length allows. Consistency is all that the search asks of it. -/

/-- The estimate weighs the larger of the two distances against their sum. Both weights are not
negative when a diagonal step is between one and two long. -/
theorem heuristic_eq (planner : AStarPlanner K) (c d : Cell) :
    planner.heuristic c d = (2 - planner.kDiagonal) * (max |c.x - d.x| |c.y - d.y| : Int) +
      (planner.kDiagonal - 1) * (|c.x - d.x| + |c.y - d.y| : Int) := by
  simp only [heuristic, kCardinal]
  rcases le_total |c.x - d.x| |c.y - d.y| with hle | hle
  · rw [min_eq_left hle, max_eq_right hle, abs_of_nonpos (sub_nonpos.mpr hle)]
    push_cast
    ring
  · rw [min_eq_right hle, max_eq_left hle, abs_of_nonneg (sub_nonneg.mpr hle)]
    push_cast
    ring

variable [LinearOrder K] [IsStrictOrderedRing K]

/-- Both distances change by one at most, and a step that is not diagonal changes one. -/
theorem heuristic_le (hlo : 1 ≤ planner.kDiagonal) (hhi : planner.kDiagonal ≤ 2)
    (hstep : PathStep g c d) :
    planner.heuristic c goal ≤
      (if Diagonal c d then planner.kDiagonal else 1) + planner.heuristic d goal := by
  have hx := abs_sub_le c.x d.x goal.x
  have hy := abs_sub_le c.y d.y goal.y
  have hx1 := hstep.x
  have hy1 := hstep.y
  rw [abs_sub_comm] at hx1 hy1
  have hmax : (max |c.x - goal.x| |c.y - goal.y| : Int) ≤
      max |d.x - goal.x| |d.y - goal.y| + 1 := by omega
  have hmaxK : ((max |c.x - goal.x| |c.y - goal.y| : Int) : K) ≤
      ((max |d.x - goal.x| |d.y - goal.y| : Int) : K) + 1 := by exact_mod_cast hmax
  have hfar : 0 ≤ 2 - planner.kDiagonal := sub_nonneg.mpr hhi
  have hsum : 0 ≤ planner.kDiagonal - 1 := sub_nonneg.mpr hlo
  rw [heuristic_eq, heuristic_eq]
  have hleft := mul_le_mul_of_nonneg_left hmaxK hfar
  split_ifs with hdiag
  · have hadd : |c.x - goal.x| + |c.y - goal.y| ≤ |d.x - goal.x| + |d.y - goal.y| + 2 := by omega
    have haddK : ((|c.x - goal.x| + |c.y - goal.y| : Int) : K) ≤
        ((|d.x - goal.x| + |d.y - goal.y| : Int) : K) + 2 := by exact_mod_cast hadd
    have hright := mul_le_mul_of_nonneg_left haddK hsum
    linarith
  · have hone : |c.x - d.x| + |c.y - d.y| ≤ 1 := by
      simp only [Diagonal, not_and_or, not_ne_iff] at hdiag
      rcases hdiag with heq | heq
      · rw [heq, sub_self, abs_zero]
        omega
      · rw [heq, sub_self, abs_zero]
        omega
    have hadd : |c.x - goal.x| + |c.y - goal.y| ≤ |d.x - goal.x| + |d.y - goal.y| + 1 := by omega
    have haddK : ((|c.x - goal.x| + |c.y - goal.y| : Int) : K) ≤
        ((|d.x - goal.x| + |d.y - goal.y| : Int) : K) + 1 := by exact_mod_cast hadd
    have hright := mul_le_mul_of_nonneg_left haddK hsum
    linarith

/-- The estimate is consistent: a step takes off no more than its length, and the cost of the
cell it enters only adds to that. -/
theorem consistent (hlo : 1 ≤ planner.kDiagonal) (hhi : planner.kDiagonal ≤ 2)
    (hw : 0 ≤ planner.params.heuristicWeight) (hw1 : planner.params.heuristicWeight ≤ 1) :
    (planner.problem g start goal).Consistent := by
  intro c d hd
  have hest : planner.heuristic c goal ≤ _ := heuristic_le hlo hhi (mem_neighbours.mp hd).2
  change planner.heuristic c goal * planner.params.heuristicWeight ≤
    planner.stepCost g c d + planner.heuristic d goal * planner.params.heuristicWeight
  rw [stepCost_eq]
  have hbase : (0 : K) ≤ if Diagonal c d then planner.kDiagonal else 1 := by
    split_ifs
    · linarith
    · exact zero_le_one
  calc planner.heuristic c goal * planner.params.heuristicWeight
    _ ≤ ((if Diagonal c d then planner.kDiagonal else 1) + planner.heuristic d goal) *
          planner.params.heuristicWeight := mul_le_mul_of_nonneg_right hest hw
    _ ≤ (if Diagonal c d then planner.kDiagonal else 1) + 0 +
          planner.heuristic d goal * planner.params.heuristicWeight := by
      rw [add_mul, add_zero]
      exact add_le_add_left (mul_le_of_le_one_right hbase hw1) _
    _ ≤ _ := by
      gcongr
      positivity

end AStarPlanner

/-! ## Plans

Each theorem about a plan is the one about the search, with the endpoints snapped and the cells
turned into points. -/

theorem validPath_singleton (hc : g.isTraversable c = true) (hd : c = d) :
    ValidPath g c d [c] := by
  refine ⟨rfl, congrArg some hd, fun e he => ?_, .singleton _⟩
  obtain rfl := List.mem_singleton.mp he
  exact hc

namespace AStarPlanner

variable [LinearOrder K] (planner : AStarPlanner K) (Q : MinQueue (Node Cell K) Node.f)

/-- A search fails, or its closed nodes lead back along a valid path of the cost it was
found with. -/
theorem search_cases {start : Cell} (goal : Cell) (hstart : g.isTraversable start = true) :
    ((planner.problem g start goal).search Q planner.params.maxIterations.toNat = none ∧
      planner.search Q g start goal = some []) ∨
    ∃ closed cur path,
      (planner.problem g start goal).search Q planner.params.maxIterations.toNat = some closed ∧
      closed.getLast? = some cur ∧ cur.vertex = goal ∧
      planner.search Q g start goal = some (path.map (gridToWorld g)) ∧
      ValidPath g start goal path ∧ cur.g = planner.pathCost g path := by
  rw [search]
  cases hsearch :
    (planner.problem g start goal).search Q planner.params.maxIterations.toNat with
  | none => exact .inl ⟨rfl, rfl⟩
  | some closed =>
    obtain ⟨cur, path, hgoal, hlast, -, hpath, hroute⟩ := Problem.search_some hsearch
    obtain ⟨hvalid, hcost⟩ := (route_iff_validPath hstart).mp hroute
    obtain rfl : cur.vertex = goal := of_decide_eq_true hgoal
    exact .inr ⟨closed, cur, path, rfl, hlast, rfl, by simp only [hpath, Option.map_some], hvalid,
      hcost⟩

variable [FloorRing K]

/-- **A plan is a valid path** between the snapped endpoints, whichever frontier the search uses.
The second half is about the list of closed nodes: the parent of each was closed before it, so
that `reconstruct` follows parents with smaller and smaller indices and ends at the start. -/
theorem plan_valid (g : OccupancyGrid K) (start goal : Pose K) :
    let s := (planner.snapEndpoint g (worldToGrid g start.x start.y)).2
    let t := (planner.snapEndpoint g (worldToGrid g goal.x goal.y)).2
    (∃ path, planner.plan Q g start goal = some path ∧
      (path ≠ [] → ∃ cells, path = cells.map (gridToWorld g) ∧ ValidPath g s t cells)) ∧
    ∀ closed, (planner.problem g s t).search Q planner.params.maxIterations.toNat = some closed →
      ∀ i n, closed[i]? = some n → (∀ j, n.parent = some j → j < i) ∧
        ∃ cells, reconstruct closed closed.length (some i) = some cells ∧
          cells.head? = some s := by
  intro s t
  constructor
  · rw [plan]
    split_ifs with hsnap hsame
    · exact ⟨[], rfl, fun hne => absurd rfl hne⟩
    · rw [not_or, Bool.not_eq_false, Bool.not_eq_false] at hsnap
      have hs := snapEndpoint_traversable hsnap.1
      exact ⟨_, rfl, fun _ => ⟨[s], rfl, validPath_singleton hs hsame⟩⟩
    · rw [not_or, Bool.not_eq_false, Bool.not_eq_false] at hsnap
      have hs := snapEndpoint_traversable hsnap.1
      obtain ⟨-, hnone⟩ | ⟨_, _, cells, -, -, -, hsome, hvalid, -⟩ :=
        search_cases planner Q t hs
      · exact ⟨[], hnone, fun hne => absurd rfl hne⟩
      · exact ⟨_, hsome, fun _ => ⟨cells, rfl, hvalid⟩⟩
  · intro closed hsearch i n hn
    obtain ⟨-, -, -, -, hchained, -⟩ := Problem.search_some hsearch
    obtain ⟨cells, hcells, hroute⟩ := hchained.route hn (List.getElem?_eq_some_iff.mp hn).1
    refine ⟨hchained.parent_lt hn, cells, hcells, (Problem.route_iff.mp hroute).1⟩

theorem pathCost_nonneg [IsStrictOrderedRing K] (hlo : 1 ≤ planner.kDiagonal)
    (path : List Cell) : 0 ≤ planner.pathCost g path := by
  induction path with
  | nil => exact le_rfl
  | cons c path ih =>
    rcases path with _ | ⟨d, path⟩
    · exact le_rfl
    · rw [pathCost]
      have hbase : (0 : K) ≤ if Diagonal c d then planner.kDiagonal else 1 := by
        split_ifs
        · exact zero_le_one.trans hlo
        · exact zero_le_one
      positivity

/-- **A plan is cheapest** among the valid paths between the snapped endpoints, if the weight of
the heuristic is at most one and a diagonal step costs between one and two straight ones. The
octile distance is then consistent, and a smaller weight only makes the estimate smaller. -/
theorem plan_optimal [IsStrictOrderedRing K] (g : OccupancyGrid K) (start goal : Pose K)
    (hw : 0 ≤ planner.params.heuristicWeight) (hw1 : planner.params.heuristicWeight ≤ 1)
    (hlo : 1 ≤ planner.kDiagonal) (hhi : planner.kDiagonal ≤ 2) {path : List (Waypoint K)}
    (hplan : planner.plan Q g start goal = some path) (hne : path ≠ []) :
    let s := (planner.snapEndpoint g (worldToGrid g start.x start.y)).2
    let t := (planner.snapEndpoint g (worldToGrid g goal.x goal.y)).2
    ∃ cells, path = cells.map (gridToWorld g) ∧ ValidPath g s t cells ∧
      ∀ cells', ValidPath g s t cells' → planner.pathCost g cells ≤ planner.pathCost g cells' := by
  intro s t
  rw [plan] at hplan
  split_ifs at hplan with hsnap hsame
  · exact absurd (Option.some.inj hplan).symm hne
  · rw [not_or, Bool.not_eq_false, Bool.not_eq_false] at hsnap
    refine ⟨[s], (Option.some.inj hplan).symm, ?_, fun cells' _ => ?_⟩
    · exact validPath_singleton (snapEndpoint_traversable hsnap.1) hsame
    · exact planner.pathCost_nonneg hlo cells'
  · rw [not_or, Bool.not_eq_false, Bool.not_eq_false] at hsnap
    have hs := snapEndpoint_traversable hsnap.1
    obtain ⟨-, hnone⟩ | ⟨closed, cur, cells, hsearch, hlast, hcur, hsome, hpath, hcost⟩ :=
      search_cases planner Q t hs
    · exact absurd (Option.some.inj (hplan.symm.trans hnone)) hne
    · refine ⟨cells, Option.some.inj (hplan.symm.trans hsome), hpath, fun cells' hpath' => ?_⟩
      have hroute : (planner.problem g s t).Route cur.vertex cells' _ :=
        (route_iff_validPath hs).mpr ⟨hcur ▸ hpath', rfl⟩
      rw [← hcost]
      exact Problem.search_optimal (keyInj hs) (consistent hlo hhi hw hw1) hsearch hlast hroute

/-! ### Completeness

A vertex can enter the queue once for each of its neighbours, and what is popped twice is
skipped, but counts. So eight times the cells, and one for the start, are enough iterations. -/

omit [LinearOrder K] [FloorRing K] in
theorem length_neighbours_le (g : OccupancyGrid K) (c : Cell) : (neighbours g c).length ≤ 8 :=
  List.length_filterMap_le _ _

omit [LinearOrder K] [FloorRing K] in
/-- There are no more cells than the two sides say. -/
theorem exists_insideCells (g : OccupancyGrid K) :
    ∃ cs : Finset Cell, (∀ c, g.Inside c → c ∈ cs) ∧
      cs.card ≤ g.width.toNat * g.height.toNat := by
  refine ⟨(Finset.range g.width.toNat ×ˢ Finset.range g.height.toNat).image
    fun p => ⟨p.1, p.2⟩, fun c hc => ?_, ?_⟩
  · obtain ⟨hx, hy, heq⟩ := hc.toNat
    refine Finset.mem_image.mpr ⟨(c.x.toNat, c.y.toNat), ?_, heq.symm⟩
    exact Finset.mem_product.mpr ⟨Finset.mem_range.mpr hx, Finset.mem_range.mpr hy⟩
  · refine Finset.card_image_le.trans ?_
    rw [Finset.card_product, Finset.card_range, Finset.card_range]

omit [FloorRing K] in
/-- A search with as many iterations as nodes can enter the queue fails only if no valid
path joins its endpoints. -/
theorem not_validPath_of_search_eq_none {start goal : Cell}
    (hmax : 8 * (g.width * g.height) + 1 ≤ planner.params.maxIterations)
    (hstart : g.isTraversable start = true)
    (hsearch : (planner.problem g start goal).search Q planner.params.maxIterations.toNat = none)
    (path : List Cell) : ¬ValidPath g start goal path := by
  intro hpath
  obtain ⟨cs, hcs, hcard⟩ := exists_insideCells g
  obtain ⟨⟨hx, hxw⟩, hy, hyh⟩ :=
    OccupancyGrid.inside_iff.mp (OccupancyGrid.inside_of_isTraversable hstart)
  have hfuel : 8 * cs.card + 1 ≤ planner.params.maxIterations.toNat := by
    have hsides : ((g.width.toNat * g.height.toNat : Nat) : Int) = g.width * g.height := by
      rw [Nat.cast_mul, Int.toNat_of_nonneg (by omega), Int.toNat_of_nonneg (by omega)]
    omega
  have hgoal := Problem.search_none (keyInj hstart) (length_neighbours_le g)
    (fun d hd => hcs d (inside_of_reachable hstart hd)) hfuel hsearch
    ⟨path, _, (route_iff_validPath hstart).mpr ⟨hpath, rfl⟩⟩
  exact of_decide_eq_false hgoal rfl

/-- **A plan is empty** only when an endpoint cannot be used or no valid path joins the two, if
there are as many iterations as nodes can enter the queue: every cell is closed once and puts at
most its eight neighbours there. -/
theorem plan_eq_nil_iff (g : OccupancyGrid K) (start goal : Pose K)
    (hmax : 8 * (g.width * g.height) + 1 ≤ planner.params.maxIterations) :
    let s := planner.snapEndpoint g (worldToGrid g start.x start.y)
    let t := planner.snapEndpoint g (worldToGrid g goal.x goal.y)
    planner.plan Q g start goal = some [] ↔
      s.1 = false ∨ t.1 = false ∨ ¬∃ cells, ValidPath g s.2 t.2 cells := by
  intro s t
  rw [plan]
  split_ifs with hsnap hsame
  · rw [← or_assoc]
    exact ⟨fun _ => .inl hsnap, fun _ => rfl⟩
  · rw [not_or, Bool.not_eq_false, Bool.not_eq_false] at hsnap
    have hpath := validPath_singleton (snapEndpoint_traversable hsnap.1) hsame
    simp only [s, t, hsnap, Bool.true_eq_false, false_or]
    exact ⟨nofun, fun hnone => absurd ⟨_, hpath⟩ hnone⟩
  · rw [not_or, Bool.not_eq_false, Bool.not_eq_false] at hsnap
    have hs := snapEndpoint_traversable hsnap.1
    simp only [s, t, hsnap, Bool.true_eq_false, false_or]
    obtain ⟨hsearch, hnone⟩ | ⟨_, _, cells, -, -, -, hsome, hpath, -⟩ :=
      search_cases planner Q t.2 hs
    · refine ⟨fun _ ⟨cells, hpath⟩ => ?_, fun _ => hnone⟩
      exact not_validPath_of_search_eq_none planner Q hmax hs hsearch cells hpath
    · refine ⟨fun hnil => ?_, fun hnone => absurd ⟨cells, hpath⟩ hnone⟩
      have hcells : cells = [] := by simpa using hsome.symm.trans hnil
      rw [hcells] at hpath
      cases hpath.head

end AStarPlanner

/-- Two free cells. -/
def corridor : OccupancyGrid ℚ where
  width := 2
  height := 1
  resolution := 1
  cells := [OccupancyGrid.free, OccupancyGrid.free]
  width_lt := two_lt_int32
  height_lt := one_lt_int32

/-- From one end to the other. -/
theorem plan_optimal_corridor :
    ∃ cells : List Cell, [⟨1 / 2, 1 / 2⟩, ⟨3 / 2, 1 / 2⟩] = cells.map (gridToWorld corridor) ∧
      ValidPath corridor ⟨0, 0⟩ ⟨1, 0⟩ cells ∧
      ∀ cells', ValidPath corridor ⟨0, 0⟩ ⟨1, 0⟩ cells' →
        snapping.pathCost corridor cells ≤ snapping.pathCost corridor cells' := by
  have hs : (snapping.snapEndpoint corridor (worldToGrid corridor (1 / 2) (1 / 2))).2 = ⟨0, 0⟩ := by
    decide +kernel
  have ht : (snapping.snapEndpoint corridor (worldToGrid corridor (3 / 2) (1 / 2))).2 = ⟨1, 0⟩ := by
    decide +kernel
  have hplan : snapping.plan (.sorted Node.f) corridor ⟨1 / 2, 1 / 2⟩ ⟨3 / 2, 1 / 2⟩ =
      some [⟨1 / 2, 1 / 2⟩, ⟨3 / 2, 1 / 2⟩] := by
    decide +kernel
  rw [← hs, ← ht]
  exact snapping.plan_optimal (.sorted Node.f) corridor ⟨1 / 2, 1 / 2⟩ ⟨3 / 2, 1 / 2⟩
    (by decide +kernel) (by decide +kernel) (by decide +kernel) (by decide +kernel) hplan
    (by decide)

/-- An obstacle at the start, and no snapping. -/
theorem plan_eq_nil_halfBlocked :
    AStarPlanner.plan {} (.sorted Node.f) halfBlocked ⟨1 / 2, 1 / 2⟩ ⟨3 / 2, 1 / 2⟩ = some [] :=
  (AStarPlanner.plan_eq_nil_iff {} (.sorted Node.f) halfBlocked ⟨1 / 2, 1 / 2⟩ ⟨3 / 2, 1 / 2⟩
    (by decide)).mpr (.inl (by decide +kernel))

end AmrFramework.Planning
