import AmrFramework.BestFirst
import AmrFramework.OccupancyGrid
import AmrFramework.RunningBest

/-!
# A* over the cost field

`AStarPlanner::plan` snaps its two endpoints to traversable cells and runs a
best-first search between them. A step costs its length, and up to one more for
the cost of the cell it enters; a diagonal step does not cut corners.

Nothing here asks for the real `√2`: the length of a diagonal step is whatever
number between 1 and 2 the planner was compiled with.

The search itself is that of `BestFirst`, for a problem that says where it starts, when it is at
the goal, where a node leads to and what that costs. What is special to a grid stands here: the
cells around a cell, the costs, the heuristic, and the endpoints.
-/

namespace AmrFramework.Planning

open BestFirst

universe u

variable {K : Type u} [Field K]

/-- `AStarPlanner::Params`, with its defaults. The radius is in metres; a window of whole cells
around the endpoint is searched. -/
structure AStarParams (K : Type u) [Field K] : Type u where
  maxIterations : Int := 50000
  heuristicWeight : K := 1
  /-- zero: endpoints are not snapped -/
  endpointSnapRadius : K := 0

structure AStarPlanner (K : Type u) [Field K] : Type u where
  params : AStarParams K := {}
  /-- the length of a diagonal step -/
  kDiagonal : K := 1.41421356

def kDx : List Int := [-1, 0, 1, -1, 1, -1, 0, 1]

def kDy : List Int := [-1, -1, -1, 0, 0, 1, 1, 1]

def kCardinal : K := 1

/-- Normalizes the cost of a cell. -/
def kCostScale : K := 1 / 253

/-- A cell as one number: its two coordinates, as unsigned 32-bit numbers. Coordinates of 32 bits
give different numbers for different cells. -/
def key (c : Cell) : BitVec 64 := BitVec.ofInt 32 c.x ++ BitVec.ofInt 32 c.y

/-- The best offset so far, and its squared distance, which starts at `INT_MAX`. -/
structure Nearest : Type where
  bestD2 : Int := 2147483647
  offset : Int × Int := (0, 0)
  found : Bool := false
  deriving DecidableEq, Repr

/-- One offset of the window. -/
def Nearest.look [LinearOrder K] (grid : OccupancyGrid K) (c : Cell) (r2 : K) (n : Nearest)
    (d : Int × Int) : Nearest :=
  if r2 < squared d then n
  else if grid.isTraversable (c.move d) = false then n
  else if squared d < n.bestD2 then ⟨squared d, d, true⟩ else n

/-- The cells entered from a cell. -/
def neighbours (grid : OccupancyGrid K) (cur : Cell) : List Cell :=
  (kDx.zip kDy).filterMap fun d =>
    if grid.isTraversable (cur.move d) = false then none
    else if (d.1 ≠ 0 ∧ d.2 ≠ 0) ∧
        (grid.isTraversable (cur.move (d.1, 0)) = false ∨
          grid.isTraversable (cur.move (0, d.2)) = false) then none
    else some (cur.move d)

namespace AStarPlanner

variable (planner : AStarPlanner K)

def heuristic (c d : Cell) : K :=
  let dx := |c.x - d.x|
  let dy := |c.y - d.y|
  (min dx dy : Int) * planner.kDiagonal + (|dx - dy| : Int) * kCardinal

/-- The cost of a step. -/
def stepCost (grid : OccupancyGrid K) (cur next : Cell) : K :=
  let base := if next.x - cur.x ≠ 0 ∧ next.y - cur.y ≠ 0 then planner.kDiagonal else kCardinal
  base + (grid.costAt next).toNat * kCostScale

/-- The endpoint, snapped if it has to be, and whether it can be used. -/
def snapEndpoint [LinearOrder K] [FloorRing K] (grid : OccupancyGrid K) (c : Cell) : Bool × Cell :=
  if grid.isTraversable c = true then (true, c)
  else if planner.params.endpointSnapRadius ≤ 0 then (false, c)
  else
    let rCells := planner.params.endpointSnapRadius / grid.resolution
    let r2 := rCells * rCells
    let best := (window (truncate rCells)).foldl (Nearest.look grid c r2) {}
    if best.found = false then (false, c) else (true, c.move best.offset)

/-- What the planner searches. -/
def problem (grid : OccupancyGrid K) (start goal : Cell) : Problem Cell (BitVec 64) K where
  start := start
  isGoal c := decide (c = goal)
  succs := neighbours grid
  cost := planner.stepCost grid
  heuristic c := planner.heuristic c goal * planner.params.heuristicWeight
  key := key

variable [LinearOrder K] (Q : MinQueue (Node Cell K) Node.f)

/-- `search` and `reconstruct`: the closed nodes up to the goal, and the way back along their
parents. It is `none` if the parents of a closed node do not end. -/
def search (grid : OccupancyGrid K) (start goal : Cell) : Option (List (Waypoint K)) :=
  match (planner.problem grid start goal).search Q planner.params.maxIterations.toNat with
  | none => some []
  | some closed =>
    (reconstruct closed closed.length (some (closed.length - 1))).map
      (List.map (gridToWorld grid))

def plan [FloorRing K] (grid : OccupancyGrid K) (start goal : Pose K) :
    Option (List (Waypoint K)) :=
  let s := planner.snapEndpoint grid (worldToGrid grid start.x start.y)
  let t := planner.snapEndpoint grid (worldToGrid grid goal.x goal.y)
  if s.1 = false ∨ t.1 = false then some []
  else if s.2 = t.2 then some [gridToWorld grid s.2]
  else planner.search Q grid s.2 t.2

end AStarPlanner

/-! ## Snapping

The loop looks at every offset of a window and keeps the nearest traversable one. It is a search
for a minimum among the candidates; the window is large enough for all that are within the
radius. -/

section Snap

variable {g : OccupancyGrid K} {c d : Cell} {r2 : K}

variable [LinearOrder K]

/-- The distance of two cells is at most `r` cells, compared as squares. -/
def WithinCells (r : K) (c d : Cell) : Prop := 0 ≤ r ∧ (distSq c d : K) ≤ r * r

/-- An offset that the loop does not pass over. -/
def Candidate (g : OccupancyGrid K) (c : Cell) (r2 : K) (d : Int × Int) : Prop :=
  squared d ≤ r2 ∧ g.isTraversable (c.move d) = true

/-- The best of some offsets: a candidate of the list that none of the others is nearer than, if
there is a candidate at all. -/
structure Nearest.Best (g : OccupancyGrid K) (c : Cell) (r2 : K) (l : List (Int × Int))
    (n : Nearest) : Prop where
  none : n.found = false → n.bestD2 = 2147483647
  some : n.found = true →
    n.offset ∈ l ∧ Candidate g c r2 n.offset ∧ n.bestD2 = squared n.offset
  least : ∀ d ∈ l, Candidate g c r2 d → n.bestD2 ≤ squared d

/-- The value and the offset, if there is one. -/
def Nearest.view (n : Nearest) : Int × Option (Int × Int) :=
  (n.bestD2, if n.found = true then some n.offset else none)

theorem Nearest.view_look [DecidablePred (Candidate g c r2)] (n : Nearest) (d : Int × Int) :
    RunningBest.look (Candidate g c r2) squared id n.view d = (n.look g c r2 d).view := by
  have hcand : Candidate g c r2 d ↔ ¬r2 < squared d ∧ ¬g.isTraversable (c.move d) = false := by
    rw [Candidate, not_lt, Bool.not_eq_false]
  simp only [RunningBest.look, Nearest.look, hcand]
  split_ifs <;> grind [Nearest.view]

/-- The loop finds the best offset of its window. It is the running minimum of `RunningBest`,
with the candidates as the entries that count. -/
theorem Nearest.best_foldl (l : List (Int × Int)) :
    Best g c r2 l (l.foldl (Nearest.look g c r2) {}) := by
  classical
  have hview : l.foldl (RunningBest.look (Candidate g c r2) squared id) (Nearest.view {}) =
      (l.foldl (Nearest.look g c r2) {}).view := List.foldl_hom Nearest.view Nearest.view_look
  have hbest : RunningBest.Best (Candidate g c r2) squared id 2147483647 l
      (l.foldl (Nearest.look g c r2) {}).view := hview ▸ RunningBest.best_foldl _ _ _ _ l
  refine ⟨fun hfound => hbest.missing (if_neg (by simp [hfound])), fun hfound => ?_, hbest.least⟩
  obtain ⟨d, hd, hcand, rfl, hd2, -⟩ := hbest.found _ (if_pos hfound)
  exact ⟨hd, hcand, hd2⟩

variable [FloorRing K] [IsStrictOrderedRing K]

/-- An integer within `r` of zero is within `r`, truncated. -/
theorem abs_le_truncate {r : K} (hr : 0 ≤ r) {x : Int} (hx : (x * x : Int) ≤ r * r) :
    -truncate r ≤ x ∧ x ≤ truncate r := by
  have hsq : (x : K) ^ 2 ≤ r ^ 2 := by
    rw [sq, sq]
    exact_mod_cast hx
  obtain ⟨hlo, hhi⟩ := abs_le_of_sq_le_sq' hsq hr
  rw [truncate, if_pos hr]
  refine ⟨?_, Int.le_floor.mpr hhi⟩
  rw [neg_le, Int.le_floor]
  push_cast
  exact neg_le.mp hlo

/-- The window holds the disc. Its side is the radius, truncated, and no integer lies in between. -/
theorem mem_window_of_le {r : K} (hr : 0 ≤ r) {d : Int × Int} (hd : (squared d : K) ≤ r * r) :
    d ∈ window (truncate r) := by
  have hx : d.1 * d.1 ≤ squared d := Int.le_add_of_nonneg_right (mul_self_nonneg d.2)
  have hy : d.2 * d.2 ≤ squared d := Int.le_add_of_nonneg_left (mul_self_nonneg d.1)
  exact mem_window.mpr ⟨abs_le_truncate hr ((Int.cast_le.mpr hx).trans hd),
    abs_le_truncate hr ((Int.cast_le.mpr hy).trans hd)⟩

theorem squared_le_of_mem_window {r : Int} {d : Int × Int} (hd : d ∈ window r) :
    squared d ≤ 2 * (r * r) := by
  obtain ⟨⟨hx, hx'⟩, hy, hy'⟩ := mem_window.mp hd
  have hxr : d.1 * d.1 ≤ r * r := by nlinarith
  have hyr : d.2 * d.2 ≤ r * r := by nlinarith
  rw [squared]
  omega

variable (planner : AStarPlanner K)

/-- Whether the window is searched or not: what was found is nearest, and if nothing was
found there is nothing in the disc. -/
theorem snapEndpoint_cases {r : K} (hr : planner.params.endpointSnapRadius / g.resolution = r)
    (hres : 0 < g.resolution) (hint : 2 * (truncate r * truncate r) < 2 ^ 31)
    (hc : g.isTraversable c = false) :
    (planner.snapEndpoint g c = (false, c) ∧
      ∀ d, g.isTraversable d = true → ¬WithinCells r c d) ∨
    ∃ e, planner.snapEndpoint g c = (true, e) ∧ g.isTraversable e = true ∧ WithinCells r c e ∧
      ∀ d, g.isTraversable d = true → WithinCells r c d → distSq c e ≤ distSq c d := by
  -- a cell of the disc is the cell itself moved by an offset of the window
  have hoffset : ∀ d, g.isTraversable d = true → WithinCells r c d →
      ∃ m ∈ window (truncate r), Candidate g c (r * r) m ∧ squared m = distSq c d := by
    intro d hd hnear
    refine ⟨c.offset d, mem_window_of_le hnear.1 hnear.2, ⟨hnear.2, ?_⟩, rfl⟩
    rw [Cell.move_offset]
    exact hd
  have hbest : Nearest.Best g c (r * r) _ _ := Nearest.best_foldl (window (truncate r))
  simp only [AStarPlanner.snapEndpoint, hc, Bool.false_eq_true, if_false, hr]
  split_ifs with hoff hfound
  · refine .inl ⟨rfl, fun d hd hnear => ?_⟩
    have hzero : r = 0 := le_antisymm (hr ▸ div_nonpos_of_nonpos_of_nonneg hoff hres.le) hnear.1
    have hdist : distSq c d ≤ 0 := by
      have hle := hnear.2
      rw [hzero, mul_zero] at hle
      exact_mod_cast hle
    rw [← eq_of_distSq_nonpos hdist, hc] at hd
    cases hd
  · refine .inl ⟨rfl, fun d hd hnear => ?_⟩
    obtain ⟨m, hm, hcand, -⟩ := hoffset d hd hnear
    have hle := hbest.least m hm hcand
    have hmax := squared_le_of_mem_window hm
    rw [hbest.none hfound] at hle
    omega
  · obtain ⟨-, ⟨hle, htrav⟩, hd2⟩ := hbest.some (by simpa using hfound)
    have hpos : 0 ≤ r := hr ▸ div_nonneg (not_le.mp hoff).le hres.le
    refine .inr ⟨_, rfl, htrav, ⟨hpos, by rw [distSq_move]; exact hle⟩, fun d hd hnear => ?_⟩
    obtain ⟨m, hm, hcand, hsq⟩ := hoffset d hd hnear
    rw [distSq_move, ← hsq, ← hd2]
    exact hbest.least m hm hcand

end Snap

namespace AStarPlanner

variable [LinearOrder K] [FloorRing K] (planner : AStarPlanner K) (g : OccupancyGrid K) (c : Cell)

theorem snapEndpoint_of_traversable {g : OccupancyGrid K} {c : Cell}
    (hc : g.isTraversable c = true) : planner.snapEndpoint g c = (true, c) := if_pos hc

variable {planner g c} in
/-- An endpoint that can be used is traversable. -/
theorem snapEndpoint_traversable (h : (planner.snapEndpoint g c).1 = true) :
    g.isTraversable (planner.snapEndpoint g c).2 = true := by
  simp only [snapEndpoint] at h ⊢
  split_ifs at h ⊢ with hc hoff hfound
  · exact hc
  · exact ((Nearest.best_foldl _).some (by simpa using hfound)).2.1.2

/-- **Snapping** finds the nearest traversable cell of the disc. The radius in cells is such that
the squares the loop compares are `int`s. A cell that is traversable is its own nearest one, and
a radius of zero is a disc of one cell. -/
theorem snapEndpoint_spec [IsStrictOrderedRing K] (hres : 0 < g.resolution)
    (hint : 2 * (truncate (planner.params.endpointSnapRadius / g.resolution) *
      truncate (planner.params.endpointSnapRadius / g.resolution)) < 2 ^ 31) :
    ((planner.snapEndpoint g c).1 = true ↔ g.isTraversable c = true ∨
      ∃ d, g.isTraversable d = true ∧
        WithinCells (planner.params.endpointSnapRadius / g.resolution) c d) ∧
    (g.isTraversable c = true → (planner.snapEndpoint g c).2 = c) ∧
    ((planner.snapEndpoint g c).1 = true → g.isTraversable c = false →
      g.isTraversable (planner.snapEndpoint g c).2 = true ∧
      WithinCells (planner.params.endpointSnapRadius / g.resolution) c
        (planner.snapEndpoint g c).2 ∧
      ∀ d, g.isTraversable d = true →
        WithinCells (planner.params.endpointSnapRadius / g.resolution) c d →
        distSq c (planner.snapEndpoint g c).2 ≤ distSq c d) ∧
    ((planner.snapEndpoint g c).1 = false → (planner.snapEndpoint g c).2 = c) := by
  by_cases hc : g.isTraversable c = true
  · rw [snapEndpoint_of_traversable planner hc]
    simp [hc]
  · rw [Bool.not_eq_true] at hc
    obtain ⟨heq, hfar⟩ | ⟨e, heq, htrav, hnear, hmin⟩ :=
      snapEndpoint_cases planner rfl hres hint hc
    · rw [heq]
      simpa [hc] using hfar
    · rw [heq]
      refine ⟨⟨fun _ => .inr ⟨e, htrav, hnear⟩, fun _ => rfl⟩, ?_, ?_, nofun⟩
      · exact fun htrue => absurd (hc.symm.trans htrue) (by decide)
      · exact fun _ _ => ⟨htrav, hnear, hmin⟩

end AStarPlanner

/-- Two cells, the first of them an obstacle. -/
def halfBlocked : OccupancyGrid ℚ where
  width := 2
  height := 1
  resolution := 1
  cells := [OccupancyGrid.lethal, OccupancyGrid.free]
  width_lt := two_lt_int32
  height_lt := one_lt_int32

/-- A planner that snaps within one metre. -/
def snapping : AStarPlanner ℚ where
  params := { endpointSnapRadius := 1 }

/-- The obstacle's neighbour is found. -/
theorem snapEndpoint_spec_halfBlocked :
    (snapping.snapEndpoint halfBlocked ⟨0, 0⟩).1 = true := by
  refine (AStarPlanner.snapEndpoint_spec snapping halfBlocked ⟨0, 0⟩ ?_ ?_).1.mpr
    (.inr ⟨⟨1, 0⟩, by decide, ?_, ?_⟩)
  · decide +kernel
  · decide +kernel
  · decide +kernel
  · decide +kernel

end AmrFramework.Planning
