import Mathlib.Data.List.DropRight
import AmrFramework.AStarPath
import AmrFramework.GridEdges
import AmrFramework.SceneScan

/-!
# The grid of the decision node

`on_perception` writes to one grid: it marks the racks again, traces the latest
scan, and inflates the objects of its message. Each of these writes is made
under the mutex of the grid, but the callback group is reentrant: the writes of
several calls come in any order, and a plan is made on a copy that is taken
between two of them.

Whatever the order, every cell is on its own (`onCell`), and its cost can be
read off the writes (`runOps_cost`): what was marked once stays an obstacle, and
of the rings only those count that came after the last ray through the cell.
-/

namespace AmrFramework.Planning

universe u

open OccupancyGrid Simulation BestFirst

variable {K : Type u} [Field K]

/-- A write that is made under `grid_mutex_`. Nothing else of a callback touches the grid. -/
inductive GridOp (K : Type u) : Type u where
  | inflate (wx wy : K)
  | raytrace (frame : RayFrame K) (ranges : List (Option K))

/-- What one call of `on_perception` works on: copies of the pose and of the scan, taken at its
beginning, and the objects of its message. -/
structure PerceptionCall (K : Type u) : Type u where
  staticObstacles : Bool
  rx : K
  ry : K
  rtheta : K
  hasScan : Bool
  ranges : List (Option K)
  angleMin : K
  angleInc : K
  /-- in the frame of the chassis -/
  objects : List (PerceivedObject K)

section Source

variable [LinearOrder K] [FloorRing K] [CMath K] [CExp K]

def GridOp.run (updater : GridUpdater K) (scan : ScanToGrid K) (grid : OccupancyGrid K) :
    GridOp K → Option (OccupancyGrid K)
  | .inflate wx wy => some (updater.inflate grid wx wy)
  | .raytrace frame ranges => scan.raytrace frame grid ranges

/-- The writes of all calls, in the order in which they get the mutex. -/
def runOps (updater : GridUpdater K) (scan : ScanToGrid K) (grid : OccupancyGrid K)
    (ops : List (GridOp K)) : Option (OccupancyGrid K) :=
  ops.foldlM (GridOp.run updater scan) grid

/-- The points of `inject_static_obstacles`. -/
def staticPoints : List (K × K) :=
  let rows : List K := [2.2, 0.0, -2.2]
  (rows.flatMap fun ry => (List.range 7).map fun (i : Nat) => (4.0 + (i : K), ry)) ++
    [(18.0, 4.0), (18.0, -4.0)]

def injectStaticObstacles : List (GridOp K) := staticPoints.map fun p => .inflate p.1 p.2

namespace PerceptionCall

/-- An object in the frame of the map. -/
def onMap (call : PerceptionCall K) (obj : PerceivedObject K) : K × K :=
  let oc := CMath.cos call.rtheta
  let os := CMath.sin call.rtheta
  (call.rx + oc * obj.x - os * obj.y, call.ry + os * obj.x + oc * obj.y)

/-- Objects within the robot are not inflated. -/
def objectOps (updater : GridUpdater K) (call : PerceptionCall K) : List (GridOp K) :=
  call.objects.filterMap fun obj =>
    let m := call.onMap obj
    if hypot (m.1 - call.rx) (m.2 - call.ry) < updater.inscribedRadius then none
    else some (.inflate m.1 m.2)

/-- The scan is traced from the lidar, in front of the centre of the robot. -/
def scanOps (call : PerceptionCall K) : List (GridOp K) :=
  if call.hasScan ∧ call.ranges ≠ [] then
    let lx := call.rx + 0.25 * CMath.cos call.rtheta
    let ly := call.ry + 0.25 * CMath.sin call.rtheta
    [.raytrace ⟨call.angleMin, call.angleInc, lx, ly, call.rtheta⟩ call.ranges]
  else []

/-- The writes of one call, in their order. -/
def gridOps (updater : GridUpdater K) (call : PerceptionCall K) : List (GridOp K) :=
  (if call.staticObstacles then injectStaticObstacles else []) ++ call.scanOps ++
    call.objectOps updater

end PerceptionCall

/-- `grid_updater_` -/
def gridUpdater : GridUpdater K := ⟨0.55, 0.75, 3.0⟩

end Source

/-! ## One cell

A write does one of three things to a cell: it marks it for good, it clears it if it is no
obstacle, or it raises its cost. So the grid after any writes is described cell by cell, and the
writes to other cells do not matter. -/

namespace GridOp

section Cell

variable [LinearOrder K] [FloorRing K] [CMath K] [CExp K] (scan : ScanToGrid K)
  (g : OccupancyGrid K) (c : Cell)

/-- The write makes the cell an obstacle. -/
def Marks : GridOp K → Prop
  | .inflate wx wy => worldToGrid g wx wy = c
  | .raytrace frame ranges => scan.Hits frame g ranges.zipIdx c

/-- The write takes back what is no obstacle. -/
def Clears : GridOp K → Prop
  | .inflate _ _ => False
  | .raytrace frame ranges => scan.Crosses frame g ranges.zipIdx c

/-- The cost that the write raises the cell to. -/
def stamp (updater : GridUpdater K) : GridOp K → UInt8
  | .inflate wx wy => updater.stamp g (worldToGrid g wx wy) c
  | .raytrace _ _ => free

open Classical in
/-- What a write does to one cell. -/
noncomputable def onCell (updater : GridUpdater K) (cost : UInt8) (op : GridOp K) : UInt8 :=
  if op.Marks scan g c then lethal
  else if op.Clears scan g c ∧ cost ≠ lethal then free
  else max cost (op.stamp g c updater)

end Cell

end GridOp

open Classical in
/-- The writes after the last ray through the cell. -/
noncomputable def sinceCleared [LinearOrder K] [FloorRing K] [CMath K] (scan : ScanToGrid K)
    (g : OccupancyGrid K) (c : Cell) (ops : List (GridOp K)) : List (GridOp K) :=
  ops.rtakeWhile fun op => ¬op.Clears scan g c

variable {updater : GridUpdater ℝ} {scan : ScanToGrid ℝ} {g h : OccupancyGrid ℝ} {c d : Cell}

/-- Bounded in its cells, bounded in its vector. -/
theorem bounded_of_costAt_le (hb : Bounded g) (hs : SameFrame g h)
    (hle : ∀ c, g.Inside c → h.costAt c ≤ lethal) : Bounded h := by
  intro cost hcost
  obtain ⟨i, hi, rfl⟩ := List.mem_iff_getElem.mp hcost
  by_cases hplace : ∃ c, g.Inside c ∧ g.index c = i
  · obtain ⟨c, hc, rfl⟩ := hplace
    have hstored : h.costAt c = h.cells[g.index c] := by
      rw [costAt, if_pos (hs.inside_iff.mpr hc), stored, hs.index,
        List.getD_eq_getElem?_getD, List.getElem?_eq_getElem hi]
      rfl
    rw [← hstored]
    exact hle c hc
  · have hrest := hs.rest i fun c hc hidx => hplace ⟨c, hc, hidx⟩
    rw [List.getElem?_eq_getElem hi] at hrest
    exact hb _ (List.mem_of_getElem? hrest.symm)

theorem stamp_self (o : Cell) : updater.stamp g o o = lethal := if_pos rfl

theorem stamp_ne (hk : 0 ≤ updater.costScalingFactor) (hne : c ≠ d) :
    updater.stamp g c d ≤ inscribed := by
  rw [GridUpdater.stamp, if_neg hne]
  split_ifs
  · exact UInt8.zero_le
  · exact GridUpdater.ringCost_le hk _

namespace GridOp

/-- A write that does not make the cell an obstacle keeps it traversable in the eyes of the
maximum. -/
theorem stamp_le_inscribed (hk : 0 ≤ updater.costScalingFactor) {op : GridOp ℝ}
    (hmark : ¬op.Marks scan g c) : op.stamp g c updater ≤ inscribed := by
  cases op with
  | inflate wx wy => exact stamp_ne hk hmark
  | raytrace frame ranges => exact UInt8.zero_le

theorem onCell_le (hk : 0 ≤ updater.costScalingFactor) (op : GridOp ℝ) {cost : UInt8}
    (hcost : cost ≤ lethal) : op.onCell scan g c updater cost ≤ lethal := by
  rw [onCell]
  split_ifs with hmark hclear
  · exact UInt8.le_refl _
  · exact UInt8.zero_le
  · exact max_le_iff_byte.mpr
      ⟨hcost, UInt8.le_trans (stamp_le_inscribed hk hmark) (by decide)⟩

variable (scan) in
/-- **One write**: every cell of the grid for itself. The write keeps the frame of the grid, so
that the same points are in the same cells afterwards. -/
theorem run_spec (hk : 0 ≤ updater.costScalingFactor) (hg : g.WellFormed) (hb : Bounded g)
    (op : GridOp ℝ) : ∃ h, op.run updater scan g = some h ∧ SameFrame g h ∧ Bounded h ∧
      ∀ c, g.Inside c → h.costAt c = op.onCell scan g c updater (g.costAt c) := by
  cases op with
  | inflate wx wy =>
    have hle : ∀ c, g.Inside c → g.costAt c ≤ lethal := fun c hc => costAt_le hg.sized hb hc
    have hraised : Raised g (updater.inflate g wx wy) _ :=
      GridUpdater.inflate_raised hg hle wx wy
    have hcost : ∀ c, g.Inside c → (updater.inflate g wx wy).costAt c =
        (GridOp.inflate wx wy).onCell scan g c updater (g.costAt c) := by
      intro c hc
      have hmax : (updater.inflate g wx wy).costAt c =
          max (g.costAt c) (updater.stamp g (worldToGrid g wx wy) c) :=
        eq_of_forall_le_iff fun b => by
          rw [hraised.le_iff c hc, max_le_iff_byte]
          simp
      rw [hmax, onCell]
      split_ifs with hmark hclear
      · obtain rfl : worldToGrid g wx wy = c := hmark
        rw [stamp_self]
        refine UInt8.le_antisymm ?_ ?_
        · exact max_le_iff_byte.mpr ⟨hle _ hc, UInt8.le_refl _⟩
        · exact (max_le_iff_byte.mp (UInt8.le_refl _)).2
      · exact hclear.1.elim
      · rfl
    refine ⟨_, rfl, hraised.frame, bounded_of_costAt_le hb hraised.frame fun c hc => ?_, hcost⟩
    rw [hcost c hc]
    exact onCell_le hk _ (hle c hc)
  | raytrace frame ranges =>
    obtain ⟨h, hrun, ht⟩ : ∃ h, scan.rays frame g ranges.zipIdx = some h ∧ _ :=
      ScanToGrid.rays_traced hg.sized hb ranges.zipIdx
    refine ⟨h, hrun, ht.frame, ht.bounded hg.sized hb, fun c hc => ?_⟩
    rw [onCell]
    split_ifs with hmark hclear
    · exact ht.marked c hc hmark
    · exact ht.cleared c hc hclear.1 hmark hclear.2
    · have hkeep : h.costAt c = g.costAt c := by
        by_cases hcross : scan.Crosses frame g ranges.zipIdx c
        · have hlethal : g.costAt c = lethal := not_not.mp fun hne => hclear ⟨hcross, hne⟩
          rw [hlethal, ht.sticky c hlethal]
        · exact ht.kept c hcross hmark
      rw [hkeep]
      exact UInt8.le_antisymm (max_le_iff_byte.mp (UInt8.le_refl _)).1
        (max_le_iff_byte.mpr ⟨UInt8.le_refl _, UInt8.zero_le⟩)

theorem onCell_congr (hs : SameFrame g h) : onCell scan h c updater = onCell scan g c updater := by
  funext cost op
  have hmarks : op.Marks scan h c ↔ op.Marks scan g c := by
    cases op with
    | inflate wx wy => rw [Marks, Marks, hs.worldToGrid]
    | raytrace frame ranges => rw [Marks, Marks, ScanToGrid.hits_congr hs]
  have hclears : op.Clears scan h c ↔ op.Clears scan g c := by
    cases op with
    | inflate wx wy => rfl
    | raytrace frame ranges => rw [Clears, Clears, ScanToGrid.crosses_congr hs]
  have hstamp : op.stamp h c updater = op.stamp g c updater := by
    cases op with
    | inflate wx wy => rw [stamp, stamp, hs.worldToGrid, GridUpdater.stamp_congr hs]
    | raytrace frame ranges => rfl
  rw [onCell, onCell, hstamp, propext hmarks, propext hclears]

end GridOp

/-! ## Every order

Calls overlap, and the mutex orders their writes. Nothing is assumed of that order: the results
are about any list of writes. -/

variable (scan) in
/-- The writes of any calls, in any order, cell by cell. -/
theorem runOps_cells (hk : 0 ≤ updater.costScalingFactor) (hg : g.WellFormed) (hb : Bounded g)
    (ops : List (GridOp ℝ)) : ∃ h, runOps updater scan g ops = some h ∧ SameFrame g h ∧
      ∀ c, g.Inside c → h.costAt c = ops.foldl (GridOp.onCell scan g c updater) (g.costAt c) := by
  induction ops generalizing g with
  | nil => exact ⟨g, rfl, .refl g, fun c _ => rfl⟩
  | cons op ops ih =>
    obtain ⟨h, hrun, hs, hbound, hcost⟩ := GridOp.run_spec scan hk hg hb op
    obtain ⟨h', hrest, hs', hcosts⟩ := ih (hs.wellFormed hg) hbound
    refine ⟨h', ?_, hs.trans hs', fun c hc => ?_⟩
    · rw [runOps, List.foldlM_cons, hrun]
      exact hrest
    · rw [hcosts c (hs.inside_iff.mpr hc), hcost c hc, GridOp.onCell_congr hs, List.foldl_cons]

variable (scan) in
/-- The cost of a cell by what was written to it. By induction from the end: the last write
marks, or clears, or is one more term of the maximum. -/
theorem foldl_onCell (hk : 0 ≤ updater.costScalingFactor) (ops : List (GridOp ℝ)) :
    ((∃ op ∈ ops, op.Marks scan g c) →
      ops.foldl (GridOp.onCell scan g c updater) free = lethal) ∧
    ((∀ op ∈ ops, ¬op.Marks scan g c) →
      ops.foldl (GridOp.onCell scan g c updater) free =
        ((sinceCleared scan g c ops).map (GridOp.stamp g c updater)).foldl max free ∧
      ops.foldl (GridOp.onCell scan g c updater) free ≤ inscribed) := by
  induction ops using List.reverseRecOn with
  | nil => exact ⟨fun ⟨_, hop, _⟩ => absurd hop List.not_mem_nil, fun _ => ⟨rfl, UInt8.zero_le⟩⟩
  | append_singleton ops op ih =>
    rw [List.foldl_append, List.foldl_cons, List.foldl_nil]
    by_cases hmark : op.Marks scan g c
    · refine ⟨fun _ => ?_, fun hnone => absurd hmark (hnone op (by simp))⟩
      rw [GridOp.onCell, if_pos hmark]
    · refine ⟨?_, fun hnone => ?_⟩
      · rintro ⟨op', hop', hmark'⟩
        have hop' : op' ∈ ops := by
          rcases List.mem_append.mp hop' with hop' | hop'
          · exact hop'
          · exact absurd (List.mem_singleton.mp hop' ▸ hmark') hmark
        rw [ih.1 ⟨op', hop', hmark'⟩, GridOp.onCell, if_neg hmark, if_neg fun h => h.2 rfl]
        exact UInt8.le_antisymm (max_le_iff_byte.mpr ⟨UInt8.le_refl _,
          UInt8.le_trans (GridOp.stamp_le_inscribed hk hmark) (by decide)⟩)
          (max_le_iff_byte.mp (UInt8.le_refl _)).1
      · obtain ⟨heq, hle⟩ := ih.2 fun op' hop' => hnone op' (List.mem_append_left _ hop')
        have hne : ops.foldl (GridOp.onCell scan g c updater) free ≠ lethal := by
          intro hlethal
          rw [hlethal] at hle
          exact absurd hle (by decide)
        by_cases hclear : op.Clears scan g c
        · rw [GridOp.onCell, if_neg hmark, if_pos ⟨hclear, hne⟩, sinceCleared,
            List.rtakeWhile_concat_neg _ _ _ (by simpa using hclear)]
          exact ⟨rfl, by decide⟩
        · rw [GridOp.onCell, if_neg hmark, if_neg fun h => hclear h.1, sinceCleared,
            List.rtakeWhile_concat_pos _ _ _ (by simpa using hclear), List.map_append,
            List.foldl_append, ← sinceCleared, ← heq]
          exact ⟨rfl, max_le_iff_byte.mpr ⟨hle, GridOp.stamp_le_inscribed hk hmark⟩⟩

variable (scan) in
/-- On a grid that was free, the cost of a cell is what the writes make of it. -/
theorem runOps_free (hk : 0 ≤ updater.costScalingFactor) (hg : g.WellFormed)
    (hfree : ∀ cost ∈ g.cells, cost = free) (ops : List (GridOp ℝ)) :
    ∃ h, runOps updater scan g ops = some h ∧ SameFrame g h ∧ ∀ c, g.Inside c →
      h.costAt c = ops.foldl (GridOp.onCell scan g c updater) free := by
  have hb : Bounded g := by
    intro cost hcost
    rw [hfree cost hcost]
    exact UInt8.zero_le
  obtain ⟨h, hrun, hs, hcost⟩ := runOps_cells scan hk hg hb ops
  refine ⟨h, hrun, hs, fun c hc => ?_⟩
  have hzero : g.costAt c = free := by
    rw [costAt, if_pos hc, stored, List.getD_eq_getElem?_getD,
      List.getElem?_eq_getElem (index_lt hg.sized hc)]
    exact hfree _ (List.getElem_mem _)
  rw [hcost c hc, hzero]

variable (scan) in
/-- On a grid that was free, an obstacle was marked. -/
theorem runOps_obstacle (hk : 0 ≤ updater.costScalingFactor) (hg : g.WellFormed)
    (hfree : ∀ cost ∈ g.cells, cost = free) (ops : List (GridOp ℝ)) :
    ∃ h, runOps updater scan g ops = some h ∧ ∀ c, g.Inside c → h.costAt c = lethal →
      ∃ op ∈ ops, op.Marks scan g c := by
  obtain ⟨h, hrun, -, hcost⟩ := runOps_free scan hk hg hfree ops
  refine ⟨h, hrun, fun c hc hlethal => ?_⟩
  by_contra hnone
  have hle := ((foldl_onCell scan hk ops (g := g) (c := c)).2 fun op hop hmark =>
    hnone ⟨op, hop, hmark⟩).2
  rw [← hcost c hc, hlethal] at hle
  exact absurd hle (by decide)

variable (scan) in
/-- **The cost of every cell, whatever the order of the writes.** A cell that a beam hit or that
is the centre of an object is an obstacle for good; any other cell has the highest cost of the
objects inflated after the last ray through it. What came before that ray is lost, whether it is
still there or not. -/
theorem runOps_cost (hk : 0 ≤ updater.costScalingFactor) (hg : g.WellFormed)
    (hfree : ∀ cost ∈ g.cells, cost = free) (ops : List (GridOp ℝ)) :
    ∃ h, runOps updater scan g ops = some h ∧ SameFrame g h ∧ ∀ c, g.Inside c →
      ((∃ op ∈ ops, op.Marks scan g c) → h.costAt c = lethal) ∧
      ((∀ op ∈ ops, ¬op.Marks scan g c) → h.costAt c < lethal ∧ h.costAt c =
        ((sinceCleared scan g c ops).map (GridOp.stamp g c updater)).foldl max free) := by
  obtain ⟨h, hrun, hs, hcost⟩ := runOps_free scan hk hg hfree ops
  refine ⟨h, hrun, hs, fun c hc => ?_⟩
  obtain ⟨hmarked, hrest⟩ := foldl_onCell scan hk ops (g := g) (c := c)
  rw [hcost c hc]
  refine ⟨hmarked, fun hnone => ⟨?_, (hrest hnone).1⟩⟩
  exact UInt8.lt_of_le_of_lt (hrest hnone).2 (by decide)

theorem demoGrid_free : ∀ cost ∈ demoGrid.cells, cost = free := fun _ hcost =>
  List.eq_of_mem_replicate hcost

theorem gridUpdater_decays : 0 ≤ (gridUpdater : GridUpdater ℝ).costScalingFactor := by
  norm_num [gridUpdater]

/-- One object on the grid of the node. -/
theorem runOps_cost_demoGrid :
    ∃ h, runOps gridUpdater {} demoGrid [.inflate 1 1] = some h ∧
      h.costAt (worldToGrid demoGrid 1 1) = lethal := by
  obtain ⟨h, hrun, -, hcost⟩ :=
    runOps_cost {} gridUpdater_decays demoGrid_wellFormed demoGrid_free [.inflate 1 1]
  have hinside : demoGrid.Inside (worldToGrid demoGrid 1 1) := by
    rw [inside_worldToGrid_iff demoGrid_wellFormed.resolution_pos]
    norm_num [demoGrid]
  exact ⟨h, hrun, (hcost _ hinside).1 ⟨_, List.mem_singleton_self _, rfl⟩⟩

/-! ## Plans on the grid

A plan is made on a copy of the grid, through cells whose cost is below the lethal ones. What
that says about objects goes through the cost that an object gives to the cells around it. -/

/-- The waypoints of a plan are the middles of traversable cells. -/
theorem AStarPlanner.plan_cells (planner : AStarPlanner ℝ) (Q : MinQueue (Node Cell ℝ) Node.f)
    (g : OccupancyGrid ℝ) (start goal : Pose ℝ) :
    ∃ cells : List Cell, planner.plan Q g start goal = some (cells.map (gridToWorld g)) ∧
      ∀ c ∈ cells, g.isTraversable c = true := by
  rw [plan]
  split_ifs with hsnap hsame
  · exact ⟨[], rfl, fun c hc => absurd hc List.not_mem_nil⟩
  · rw [not_or, Bool.not_eq_false, Bool.not_eq_false] at hsnap
    exact ⟨[_], rfl, fun c hc => List.mem_singleton.mp hc ▸ snapEndpoint_traversable hsnap.1⟩
  · rw [not_or, Bool.not_eq_false, Bool.not_eq_false] at hsnap
    obtain ⟨-, hnone⟩ | ⟨_, _, cells, -, -, -, hsome, hvalid, -⟩ :=
      search_cases planner Q (planner.snapEndpoint g (worldToGrid g goal.x goal.y)).2
        (snapEndpoint_traversable hsnap.1)
    · exact ⟨[], hnone, fun c hc => absurd hc List.not_mem_nil⟩
    · exact ⟨cells, hsome, hvalid.traversable⟩

/-- The middle of the cell of a point is near the point, if the grid does not begin behind it. -/
theorem abs_middle_sub_le {o w r : ℝ} (hr : 0 < r) (hw : o ≤ w) :
    |o + ((truncate ((w - o) / r) : Int) + 0.5) * r - w| ≤ r / 2 := by
  have hq : 0 ≤ (w - o) / r := div_nonneg (sub_nonneg.mpr hw) hr.le
  rw [truncate, if_pos hq]
  have hlo := (le_div_iff₀ hr).mp (Int.floor_le ((w - o) / r))
  have hhi := (div_lt_iff₀ hr).mp (Int.lt_floor_add_one ((w - o) / r))
  rw [abs_le]
  constructor <;> linarith

/-- Cells that are apart are apart in the world. -/
theorem hypot_gridToWorld (hres : 0 < g.resolution) (c d : Cell) :
    hypot ((gridToWorld g d).x - (gridToWorld g c).x)
      ((gridToWorld g d).y - (gridToWorld g c).y) = GridUpdater.metres g (c.offset d) := by
  have hx : (gridToWorld g d).x - (gridToWorld g c).x = ((d.x - c.x : Int) : ℝ) * g.resolution := by
    simp only [gridToWorld]
    push_cast
    ring
  have hy : (gridToWorld g d).y - (gridToWorld g c).y = ((d.y - c.y : Int) : ℝ) * g.resolution := by
    simp only [gridToWorld]
    push_cast
    ring
  rw [hypot, hx, hy, GridUpdater.metres, CMath.sqrt_real, CMath.sqrt_real, squared, Cell.offset]
  have hsq : ((d.x - c.x : Int) : ℝ) * g.resolution * (((d.x - c.x : Int) : ℝ) * g.resolution) +
      ((d.y - c.y : Int) : ℝ) * g.resolution * (((d.y - c.y : Int) : ℝ) * g.resolution) =
      (((d.x - c.x) * (d.x - c.x) + (d.y - c.y) * (d.y - c.y) : Int) : ℝ) *
        (g.resolution * g.resolution) := by
    push_cast
    ring
  rw [hsq, Real.sqrt_mul' _ (mul_self_nonneg _), Real.sqrt_mul_self hres.le]

/-- A point is as near to the middle of its cell as half the diagonal of a cell. -/
theorem hypot_middle_le (hres : 0 < g.resolution) {wx wy : ℝ} (hx : g.origin.x ≤ wx)
    (hy : g.origin.y ≤ wy) :
    hypot ((gridToWorld g (worldToGrid g wx wy)).x - wx)
      ((gridToWorld g (worldToGrid g wx wy)).y - wy) ≤ √2 / 2 * g.resolution := by
  have hx' := abs_middle_sub_le hres hx
  have hy' := abs_middle_sub_le hres hy
  have hsq := Real.sq_sqrt (show (0 : ℝ) ≤ 2 by norm_num)
  have hbound : 0 ≤ √2 / 2 * g.resolution := by positivity
  refine Real.sqrt_le_iff.mpr ⟨hbound, ?_⟩
  have hx2 := sq_le_sq' (neg_le_of_abs_le hx') (le_of_abs_le hx')
  have hy2 := sq_le_sq' (neg_le_of_abs_le hy') (le_of_abs_le hy')
  simp only [gridToWorld, worldToGrid]
  nlinarith

/-- The writes after which no ray went through the cell all count. -/
theorem mem_sinceCleared {before after : List (GridOp ℝ)} {op : GridOp ℝ}
    (hafter : ∀ op ∈ after, ¬op.Clears scan g c) (hop : op ∈ after) :
    op ∈ sinceCleared scan g c (before ++ after) := by
  rw [sinceCleared, List.rtakeWhile, List.reverse_append, List.takeWhile_append_of_pos,
    List.mem_reverse]
  · exact List.mem_append_left _ (List.mem_reverse.mpr hop)
  · intro op' hop'
    simpa using hafter op' (List.mem_reverse.mp hop')

/-- A traversable cell was never marked, and is far from everything that was inflated since the
last ray through it: a nearer one would have raised its cost to that of an obstacle. -/
theorem far_of_traversable (hk : 0 ≤ updater.costScalingFactor) (hg : g.WellFormed)
    (hfree : ∀ cost ∈ g.cells, cost = free) {ops : List (GridOp ℝ)}
    (hrun : runOps updater scan g ops = some h) (hc : h.isTraversable c = true) :
    g.Inside c ∧ (∀ op ∈ ops, ¬op.Marks scan g c) ∧
      ∀ wx wy, .inflate wx wy ∈ sinceCleared scan g c ops →
        min updater.inscribedRadius updater.inflationRadius <
          GridUpdater.metres g ((worldToGrid g wx wy).offset c) := by
  obtain ⟨h', hrun', hs, hcost⟩ := runOps_free scan hk hg hfree ops
  obtain rfl : h' = h := Option.some.inj (hrun'.symm.trans hrun)
  have hinside : g.Inside c := hs.inside_iff.mp (inside_of_isTraversable hc)
  have hlow : h'.costAt c < inscribed := by
    rw [isTraversable, if_pos (hs.inside_iff.mpr hinside)] at hc
    rw [costAt, if_pos (hs.inside_iff.mpr hinside)]
    exact of_decide_eq_true hc
  obtain ⟨hmarked, hrest⟩ := foldl_onCell scan hk ops (g := g) (c := c)
  rw [hcost c hinside] at hlow
  have hnone : ∀ op ∈ ops, ¬op.Marks scan g c := by
    intro op hop hmark
    rw [hmarked ⟨op, hop, hmark⟩] at hlow
    exact absurd hlow (by decide)
  refine ⟨hinside, hnone, fun wx wy hop => not_le.mp fun hnear => ?_⟩
  rw [(hrest hnone).1] at hlow
  have hstamp := (foldl_max_le_iff.mp (UInt8.le_refl (((sinceCleared scan g c ops).map
    (GridOp.stamp g c updater)).foldl max free))).2 _ (List.mem_map_of_mem hop)
  exact absurd (UInt8.lt_of_le_of_lt (UInt8.le_trans (GridUpdater.inscribed_le_stamp hnear) hstamp)
    hlow) (UInt8.lt_irrefl _)

/-- **What a plan keeps clear of.** The writes of any number of calls have been made, in any
order; the last ones, among them the objects of one call, are no scans. Then no waypoint of the
plan is in a cell that any beam ever hit or in which any object ever had its centre, and all of
them are more than half a metre from the objects of that call that are not within the robot. -/
theorem plan_keeps_clear (planner : AStarPlanner ℝ) (Q : MinQueue (Node Cell ℝ) Node.f)
    (start goal : Pose ℝ) (call : PerceptionCall ℝ) (before after : List (GridOp ℝ))
    (hobjects : (call.objectOps gridUpdater).Sublist after)
    (hafter : ∀ op ∈ after, ∃ wx wy, op = .inflate wx wy) :
    ∃ (grid : OccupancyGrid ℝ) (cells : List Cell),
      runOps gridUpdater {} demoGrid (before ++ after) = some grid ∧
      planner.plan Q grid start goal = some (cells.map (gridToWorld demoGrid)) ∧
      ∀ c ∈ cells, demoGrid.Inside c ∧ (∀ op ∈ before ++ after, ¬op.Marks {} demoGrid c) ∧
        ∀ obj ∈ call.objects, let m := call.onMap obj
          0.55 ≤ hypot (m.1 - call.rx) (m.2 - call.ry) → 0 ≤ m.1 → -10 ≤ m.2 →
          0.51 < hypot ((gridToWorld demoGrid c).x - m.1) ((gridToWorld demoGrid c).y - m.2) := by
  obtain ⟨grid, hrun, hs, -⟩ :=
    runOps_free {} gridUpdater_decays demoGrid_wellFormed demoGrid_free (before ++ after)
  obtain ⟨cells, hplan, hcells⟩ := planner.plan_cells Q grid start goal
  have hworld : gridToWorld grid = gridToWorld demoGrid := by
    funext c
    simp only [gridToWorld, hs.resolution, hs.origin]
  rw [hworld] at hplan
  refine ⟨grid, cells, hrun, hplan, fun c hc => ?_⟩
  obtain ⟨hinside, hnone, hfar⟩ :=
    far_of_traversable gridUpdater_decays demoGrid_wellFormed demoGrid_free hrun (hcells c hc)
  refine ⟨hinside, hnone, fun obj hobj => ?_⟩
  intro m hout hx hy
  have hop : GridOp.inflate m.1 m.2 ∈ after := by
    refine hobjects.subset (List.mem_filterMap.mpr ⟨obj, hobj, if_neg (not_lt.mpr ?_)⟩)
    exact hout
  have hmem : GridOp.inflate m.1 m.2 ∈ sinceCleared {} demoGrid c (before ++ after) := by
    refine mem_sinceCleared (fun op hop hclear => ?_) hop
    obtain ⟨wx, wy, rfl⟩ := hafter op hop
    exact hclear
  -- the cells are apart, and the object is near the middle of its own
  have hmetres := hfar m.1 m.2 hmem
  rw [← hypot_gridToWorld demoGrid_wellFormed.resolution_pos] at hmetres
  have hmiddle := hypot_middle_le demoGrid_wellFormed.resolution_pos
    (show demoGrid.origin.x ≤ m.1 from hx) (show demoGrid.origin.y ≤ m.2 from hy)
  have htriangle := hypot_add_le
    ((gridToWorld demoGrid c).x - m.1) ((gridToWorld demoGrid c).y - m.2)
    (m.1 - (gridToWorld demoGrid (worldToGrid demoGrid m.1 m.2)).x)
    (m.2 - (gridToWorld demoGrid (worldToGrid demoGrid m.1 m.2)).y)
  rw [sub_add_sub_cancel, sub_add_sub_cancel, hypot_sub_comm m
    ((gridToWorld demoGrid (worldToGrid demoGrid m.1 m.2)).x,
      (gridToWorld demoGrid (worldToGrid demoGrid m.1 m.2)).y)] at htriangle
  have hroot : √2 ≤ 1.5 := Real.sqrt_le_iff.mpr (by norm_num)
  norm_num [gridUpdater, demoGrid] at hmetres hmiddle htriangle ⊢
  linarith

/-- A box one metre in front of the robot, and no scan yet. -/
def boxAhead : PerceptionCall ℝ where
  staticObstacles := false
  rx := 2
  ry := 0
  rtheta := 0
  hasScan := false
  ranges := []
  angleMin := 0
  angleInc := 0
  objects := [⟨1, 0⟩]

/-- From the robot past the box. -/
theorem plan_keeps_clear_boxAhead :
    ∃ (grid : OccupancyGrid ℝ) (cells : List Cell),
      runOps gridUpdater {} demoGrid ([] ++ boxAhead.gridOps gridUpdater) = some grid ∧
      AStarPlanner.plan {} (.sorted Node.f) grid ⟨2, 0⟩ ⟨5, 0⟩ =
        some (cells.map (gridToWorld demoGrid)) ∧
      ∀ c ∈ cells,
        0.51 < hypot ((gridToWorld demoGrid c).x - 3) ((gridToWorld demoGrid c).y - 0) := by
  have hops : boxAhead.gridOps gridUpdater = boxAhead.objectOps gridUpdater := by
    simp [PerceptionCall.gridOps, PerceptionCall.scanOps, boxAhead]
  have hinflate : ∀ op ∈ boxAhead.gridOps gridUpdater, ∃ wx wy, op = .inflate wx wy := by
    intro op hop
    rw [hops] at hop
    obtain ⟨obj, -, hobj⟩ := List.mem_filterMap.mp hop
    exact ⟨_, _, (Option.some.inj ((Option.ite_none_left_eq_some.mp hobj).2)).symm⟩
  have honMap : boxAhead.onMap ⟨1, 0⟩ = (3, 0) := by
    norm_num [PerceptionCall.onMap, boxAhead]
  obtain ⟨grid, cells, hrun, hplan, hclear⟩ := plan_keeps_clear {} (.sorted Node.f) ⟨2, 0⟩ ⟨5, 0⟩
    boxAhead [] (boxAhead.gridOps gridUpdater) (hops ▸ List.Sublist.refl _) hinflate
  refine ⟨grid, cells, hrun, hplan, fun c hc => ?_⟩
  have hfar := (hclear c hc).2.2 ⟨1, 0⟩ (List.mem_singleton_self _)
  rw [honMap] at hfar
  refine hfar ?_ (by norm_num) (by norm_num)
  have hone : hypot ((3 : ℝ) - 2) (0 - 0) = 1 := by norm_num [hypot]
  calc (0.55 : ℝ)
    _ ≤ 1 := by norm_num
    _ = hypot (3 - 2) (0 - 0) := hone.symm

end AmrFramework.Planning
