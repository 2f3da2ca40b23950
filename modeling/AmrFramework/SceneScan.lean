import AmrFramework.RayCast
import AmrFramework.SimulatedScene

/-!
# The scan of the simulated scene

`generate_scan` casts one ray for each beam, from the lidar, and keeps the least distance to an
edge of the walls, of the obstacles and of the movers:

* a range is the first distance at which the beam meets an edge, or `range_max` when it meets
  none before (`generateScan_first`);
* no beam goes through the walls of the arena (`generateScan_inside`), unless the lidar is nearer
  to them than what the test for parallels lets pass.

The random boxes come from rejection sampling, and stand apart whatever is drawn
(`randomBoxes_apart`).

The arithmetic is exact. In floating point a beam into a corner may miss the two walls that meet
there by a rounding error each, and then nothing of this is promised.
-/

namespace AmrFramework.Simulation

open RayCast

universe u

variable {K : Type u}

structure Segment (K : Type u) : Type u where
  x1 : K
  y1 : K
  x2 : K
  y2 : K

variable [Field K]

/-- What `SceneParams` says about the scan, and about what stands still. -/
structure ScanParams (K : Type u) [Field K] : Type u where
  rangeMax : K := 10.0
  beamCount : Nat := 360
  lidarOffsetX : K := 0.25
  sceneName : String := "rack_4box"
  randomBoxes : Int := 0

/-- The other members of `SimulatedScene`, beside the movers. -/
structure Scene (K : Type u) [Field K] : Type u where
  params : ScanParams K
  walls : List (Segment K)
  obstacles : List (Segment K)
  randomCenters : List (K × K)
  moving : SimulatedScene K

/-- `box`: the four edges of a rectangle with sides along the axes. -/
def box (cx cy sx sy : K) : List (Segment K) :=
  let hx := sx * 0.5
  let hy := sy * 0.5
  [⟨cx - hx, cy - hy, cx + hx, cy - hy⟩, ⟨cx + hx, cy - hy, cx + hx, cy + hy⟩,
    ⟨cx + hx, cy + hy, cx - hx, cy + hy⟩, ⟨cx - hx, cy + hy, cx - hx, cy - hy⟩]

/-- `walls_`: west, east, south, north. -/
def arenaWalls : List (Segment K) :=
  [⟨0.0, -5.0, 0.0, 5.0⟩, ⟨19.0, -5.0, 19.0, 5.0⟩, ⟨0.0, -5.0, 19.0, -5.0⟩,
    ⟨0.0, 5.0, 19.0, 5.0⟩]

/-- The rows of racks of `rack_3c`. -/
def rackRows : List K := [-2.5, -0.8, 0.8, 2.5]

/-- The obstacles that come with a scene's name. A name that is neither of the two has the four
boxes of the default scene. -/
def preset (sceneName : String) : List (Segment K) :=
  if sceneName = "rack_3c" then
    rackRows.flatMap (fun ry => box 7.0 ry 6.0 0.5) ++ box 17.0 4.0 1.0 1.0 ++
      box 17.0 (-4.0) 1.0 1.0
  else if sceneName = "warehouse_open" then []
  else
    [(8.0, 0.0), (5.0, 3.0), (12.0, -3.0), (14.0, 3.0)].flatMap fun c => box c.1 c.2 0.5 0.5

/-- The edges of a mover. -/
def MovingBox.edges (m : MovingBox K) : List (Segment K) :=
  [⟨m.cx - m.half, m.cy - m.half, m.cx + m.half, m.cy - m.half⟩,
    ⟨m.cx + m.half, m.cy - m.half, m.cx + m.half, m.cy + m.half⟩,
    ⟨m.cx + m.half, m.cy + m.half, m.cx - m.half, m.cy + m.half⟩,
    ⟨m.cx - m.half, m.cy + m.half, m.cx - m.half, m.cy - m.half⟩]

variable [LinearOrder K]

/-- What `spawn_random_boxes` draws in a round, as its distributions promise. -/
structure BoxDraw (K : Type u) [Field K] [LinearOrder K] : Type u where
  x : K
  y : K
  x_mem : x ∈ Set.Icc 3.0 17.0
  y_mem : y ∈ Set.Icc (-4.0) 4.0

/-- `ray_segment`: `none` is infinite. Nearly parallel edges are left out before the division. -/
def raySegment (ox oy dx dy : K) (s : Segment K) : Option K :=
  let rx := s.x2 - s.x1
  let ry := s.y2 - s.y1
  let denom := dx * ry - dy * rx
  if |denom| < 1e-9 then none
  else
    let wx := s.x1 - ox
    let wy := s.y1 - oy
    let t := (wx * ry - wy * rx) / denom
    let u := (wx * dy - wy * dx) / denom
    if 0.0 ≤ t ∧ 0.0 ≤ u ∧ u ≤ 1.0 then some t else none

variable [CMath K]

/-- `kHalf`. -/
def kHalf : K := 0.35

/-- The body of the loop of `spawn_random_boxes`: the draws come out of the generator, round by
round. -/
def spawnBoxRound (p : ScanParams K) (draw : Nat → BoxDraw K) (centers : List (K × K))
    (guard : Nat) : List (K × K) :=
  if centers.length < p.randomBoxes then
    let d := draw guard
    -- too near to where the robot starts
    if hypot (d.x - 2.0) (d.y - 0.0) < 2.5 then centers
    -- among the racks
    else if p.sceneName = "rack_3c" ∧ 3.5 < d.x ∧ d.x < 10.5 then centers
    else if ∃ c ∈ centers, hypot (d.x - c.1) (d.y - c.2) < 2.0 then centers
    else centers ++ [(d.x, d.y)]
  else centers

/-- `spawn_random_boxes`: rounds of draws, most of which may be rejected, up to a number of
rounds. -/
def spawnRandomBoxes (p : ScanParams K) (draw : Nat → BoxDraw K) : List (K × K) :=
  (List.range 1000).foldl (spawnBoxRound p draw) []

/-- The constructor. -/
def Scene.make (p : ScanParams K) (q : SceneParams K) (boxDraw : Nat → BoxDraw K)
    (draw : Nat → Draw K) : Scene K where
  params := p
  walls := arenaWalls
  obstacles :=
    preset p.sceneName ++ (spawnRandomBoxes p boxDraw).flatMap fun c =>
      box c.1 c.2 (2.0 * kHalf) (2.0 * kHalf)
  randomCenters := spawnRandomBoxes p boxDraw
  moving := makeScene q draw

namespace Scene

variable (s : Scene K)

/-- `update`. -/
def update (t : Tick K) : Scene K := { s with moving := s.moving.update t }

/-- The scene after some updates. -/
def run (ticks : List (Tick K)) : Scene K := ticks.foldl update s

/-- `cast`: the loops over the walls, the obstacles and the movers. Each keeps the least distance
so far. -/
def cast (ox oy angle : K) : K :=
  let dx := CMath.cos angle
  let dy := CMath.sin angle
  let look := fun best e => closer best (raySegment ox oy dx dy e)
  s.moving.movers.foldl (fun best m => m.edges.foldl look best)
    (s.obstacles.foldl look (s.walls.foldl look s.params.rangeMax))

/-- Where the lidar is. -/
def lidar (x y theta : K) : K × K :=
  (x + s.params.lidarOffsetX * CMath.cos theta, y + s.params.lidarOffsetX * CMath.sin theta)

/-- The angle of a beam in the world: the first one points backwards, and the rest go around once
at equal steps. -/
def beamAngle (theta : K) (i : Nat) : K :=
  (theta - CMath.pi) + i * (2.0 * CMath.pi / s.params.beamCount)

/-- `generate_scan`. -/
def generateScan (x y theta : K) : List K :=
  (List.range s.params.beamCount).map fun i =>
    s.cast (s.lidar x y theta).1 (s.lidar x y theta).2 (s.beamAngle theta i)

/-- All edges, in the order of the loops. -/
def edges : List (Segment K) :=
  s.walls ++ s.obstacles ++ s.moving.movers.flatMap MovingBox.edges

/-- Where a beam points. -/
def beam (theta : K) (i : Nat) : K × K :=
  (CMath.cos (s.beamAngle theta i), CMath.sin (s.beamAngle theta i))

end Scene

/-! ## The first hit

The loops over walls, obstacles and movers are one minimum over all edges, with the maximal range
as the value to begin with. -/

section First

omit [LinearOrder K] [CMath K] in
/-- The start of a segment, and its direction. -/
def Segment.start (seg : Segment K) : K × K := (seg.x1, seg.y1)

omit [LinearOrder K] [CMath K] in
def Segment.dir (seg : Segment K) : K × K := (seg.x2 - seg.x1, seg.y2 - seg.y1)

/-- A ray meets a segment after a time, and is not nearly parallel to it: an edge whose direction
and that of the beam have a cross product below `1e-9` is not seen. -/
def Segment.Meets (seg : Segment K) (o d : K × K) (t : K) : Prop :=
  1e-9 ≤ |cross d seg.dir| ∧ 0 ≤ t ∧ ∃ u ∈ Set.Icc 0 1, reach o d t = reach seg.start seg.dir u

variable [IsStrictOrderedRing K]

omit [CMath K] in
/-- `ray_segment` finds out when the ray meets the segment. Its two quotients are those of
Cramer's rule. -/
theorem raySegment_eq_some_iff {ox oy dx dy t : K} {seg : Segment K} :
    raySegment ox oy dx dy seg = some t ↔ seg.Meets (ox, oy) (dx, dy) t := by
  have hcross : dx * (seg.y2 - seg.y1) - dy * (seg.x2 - seg.x1) = cross (dx, dy) seg.dir := rfl
  have hzero : (0.0 : K) = 0 := by norm_num
  have hone : (1.0 : K) = 1 := by norm_num
  simp only [raySegment, hcross, hzero, hone]
  split_ifs with hparallel hmeets
  · exact iff_of_false nofun fun h => absurd hparallel (not_lt.mpr h.1)
  all_goals
    have hne : cross (dx, dy) seg.dir ≠ 0 := by
      intro h
      rw [h, abs_zero] at hparallel
      exact hparallel (by norm_num)
    simp only [Segment.Meets, reach_eq_iff hne]
  · rw [Option.some.injEq]
    refine ⟨?_, ?_⟩
    · rintro rfl
      exact ⟨not_lt.mp hparallel, hmeets.1, _, ⟨hmeets.2.1, hmeets.2.2⟩, rfl, rfl⟩
    · rintro ⟨-, -, u, -, ht, -⟩
      exact ht.symm
  · refine iff_of_false nofun ?_
    rintro ⟨-, h0, u, hu, ht, hplace⟩
    refine hmeets ⟨ht ▸ h0, ?_, ?_⟩
    · exact hplace ▸ hu.1
    · exact hplace ▸ hu.2

namespace Scene

variable (s : Scene K)

omit [IsStrictOrderedRing K] in
/-- The three loops are one, over all edges, and its body is the minimum. -/
theorem cast_eq (ox oy angle : K) :
    s.cast ox oy angle =
      (s.edges.map (raySegment ox oy (CMath.cos angle) (CMath.sin angle))).foldl closer
        s.params.rangeMax := by
  simp only [cast, edges, List.foldl_map, List.foldl_append, List.foldl_flatMap]

/-- `cast` finds the first hit: the least of the maximal range and the distances at which an edge
is met. -/
theorem isLeast_cast (ox oy angle : K) :
    IsLeast (insert s.params.rangeMax
      {t | ∃ seg ∈ s.edges, seg.Meets (ox, oy) (CMath.cos angle, CMath.sin angle) t})
      (s.cast ox oy angle) := by
  have hhits : {t | ∃ seg ∈ s.edges, seg.Meets (ox, oy) (CMath.cos angle, CMath.sin angle) t} =
      {t | some t ∈ s.edges.map (raySegment ox oy (CMath.cos angle) (CMath.sin angle))} := by
    ext t
    simp only [Set.mem_ofPred_eq, List.mem_map, raySegment_eq_some_iff]
  rw [hhits, cast_eq]
  exact isLeast_foldl _ _

omit [IsStrictOrderedRing K] in
theorem getElem?_generateScan (x y theta : K) {i : Nat} (hi : i < s.params.beamCount) :
    (s.generateScan x y theta)[i]? =
      some (s.cast (s.lidar x y theta).1 (s.lidar x y theta).2 (s.beamAngle theta i)) := by
  rw [generateScan, List.getElem?_map, List.getElem?_range hi, Option.map_some]

/-- **A range is the first distance at which its beam meets an edge**, or `range_max` when the
beam meets none before. There is one for each beam. An edge that is nearly parallel to a beam is
not met, as in the source. -/
theorem generateScan_first (x y theta : K) :
    (s.generateScan x y theta).length = s.params.beamCount ∧
      ∀ i : Fin s.params.beamCount, ∃ r, (s.generateScan x y theta)[i.val]? = some r ∧
        IsLeast (insert s.params.rangeMax
          {t | ∃ seg ∈ s.edges, seg.Meets (s.lidar x y theta) (s.beam theta i) t}) r := by
  refine ⟨?_, fun i => ?_⟩
  · rw [generateScan, List.length_map, List.length_range]
  · exact ⟨_, s.getElem?_generateScan x y theta i.isLt, s.isLeast_cast _ _ _⟩

end Scene

/-- A box that is drawn again and again. -/
noncomputable def sameBox (_ : Nat) : BoxDraw ℝ where
  x := 10
  y := 3
  x_mem := by norm_num
  y_mem := by norm_num

/-- The first beam of the default scene, from where the robot starts. -/
theorem Scene.generateScan_first_start :
    ∃ r, ((make {} {} sameBox northDraw).generateScan 2 0 0)[0]? = some r ∧
      IsLeast (insert (make {} {} sameBox northDraw).params.rangeMax
        {t | ∃ seg ∈ (make {} {} sameBox northDraw).edges,
          seg.Meets ((make {} {} sameBox northDraw).lidar 2 0 0)
            ((make {} {} sameBox northDraw).beam 0 0) t}) r :=
  ((make {} {} sameBox northDraw).generateScan_first 2 0 0).2 (0 : Fin 360)

end First

/-! ## Inside the arena

A beam that ends outside has left the box of the arena, and so it met one of the four walls
before its range. The range is the first hit, so it is not that far. The test for parallels takes
away a strip along the walls, from where a beam can graze a wall. -/

section Arena

variable [IsStrictOrderedRing K]

/-- The corners of the arena. -/
def arenaLo : K × K := (0.0, -5.0)

def arenaHi : K × K := (19.0, 5.0)

/-- So far from all walls that no beam that gets to one is nearly parallel to it. A tenth of a
nanometre per metre of range is far enough. -/
def OffWalls (rangeMax : K) (o : K × K) : Prop :=
  arenaLo.1 + 1e-10 * rangeMax ≤ o.1 ∧ o.1 + 1e-10 * rangeMax ≤ arenaHi.1 ∧
    arenaLo.2 + 1e-10 * rangeMax ≤ o.2 ∧ o.2 + 1e-10 * rangeMax ≤ arenaHi.2

variable {o d : K × K} {t a v w rangeMax : K}

omit [CMath K] in
/-- Who is to get to a wall in time cannot be too slow: the distance, divided by the time. -/
theorem fast_of_reached (ht : 0 ≤ t) (htime : t < rangeMax) (hfar : 1e-10 * rangeMax ≤ |w - a|)
    (hreached : a + t * v = w) : 1e-10 ≤ |v| := by
  have hway : |w - a| = t * |v| := by
    rw [← hreached, add_sub_cancel_left, abs_mul, abs_of_nonneg ht]
  have hpos : 0 < rangeMax := ht.trans_lt htime
  refine le_of_mul_le_mul_right ?_ hpos
  calc 1e-10 * rangeMax ≤ t * |v| := hfar.trans_eq hway
    _ ≤ rangeMax * |v| := mul_le_mul_of_nonneg_right htime.le (abs_nonneg v)
    _ = |v| * rangeMax := mul_comm _ _

omit [CMath K] in
theorem meets_vertical (hfast : 1e-10 ≤ |d.1|) (ht : 0 ≤ t) (hx : (reach o d t).1 = w)
    (hy : (reach o d t).2 ∈ Set.Icc (-5.0) 5.0) : (⟨w, -5.0, w, 5.0⟩ : Segment K).Meets o d t := by
  have hcross : cross d (⟨w, -5.0, w, 5.0⟩ : Segment K).dir = d.1 * 10 := by
    simp only [cross, Segment.dir]
    norm_num
  refine ⟨?_, ht, ((reach o d t).2 + 5) / 10, ⟨?_, ?_⟩, Prod.ext ?_ ?_⟩
  · rw [hcross, abs_mul, abs_of_pos (by norm_num : (0 : K) < 10)]
    norm_num at hfast ⊢
    linarith
  · have := hy.1
    norm_num at this ⊢
    linarith
  · have := hy.2
    norm_num at this ⊢
    linarith
  · rw [hx]
    simp [reach, Segment.start, Segment.dir]
  · simp only [reach, Segment.start, Segment.dir]
    norm_num

omit [CMath K] in
theorem meets_horizontal (hfast : 1e-10 ≤ |d.2|) (ht : 0 ≤ t)
    (hx : (reach o d t).1 ∈ Set.Icc 0.0 19.0) (hy : (reach o d t).2 = w) :
    (⟨0.0, w, 19.0, w⟩ : Segment K).Meets o d t := by
  have hcross : cross d (⟨0.0, w, 19.0, w⟩ : Segment K).dir = -(d.2 * 19) := by
    simp only [cross, Segment.dir]
    norm_num
  refine ⟨?_, ht, (reach o d t).1 / 19, ⟨?_, ?_⟩, Prod.ext ?_ ?_⟩
  · rw [hcross, abs_neg, abs_mul, abs_of_pos (by norm_num : (0 : K) < 19)]
    norm_num at hfast ⊢
    linarith
  · have := hx.1
    norm_num at this ⊢
    linarith
  · have := hx.2
    norm_num at this ⊢
    linarith
  · simp only [reach, Segment.start, Segment.dir]
    norm_num
  · rw [hy]
    simp [reach, Segment.start, Segment.dir]

omit [CMath K] in
/-- Where a ray moves towards a side of the arena, it meets a wall. It is fast enough across the
wall not to be taken for parallel, because it has come all the way from a lidar that is off the
walls. -/
theorem exists_wall (ho : OffWalls rangeMax o) (ht : 0 ≤ t) (htime : t < rangeMax)
    (hin : reach o d t ∈ Set.Icc arenaLo arenaHi)
    (hside : Towards arenaLo.1 arenaHi.1 d.1 (reach o d t).1 ∨
      Towards arenaLo.2 arenaHi.2 d.2 (reach o d t).2) :
    ∃ seg ∈ arenaWalls, seg.Meets o d t := by
  obtain ⟨hwest, heast, hsouth, hnorth⟩ := ho
  obtain ⟨hx, hy⟩ := RayExit.mem_box.mp hin
  obtain (⟨hend, -⟩ | ⟨hend, -⟩) | (⟨hend, -⟩ | ⟨hend, -⟩) := hside
  · refine ⟨⟨0.0, -5.0, 0.0, 5.0⟩, by simp [arenaWalls], meets_vertical ?_ ht hend hy⟩
    refine fast_of_reached ht htime ?_ hend
    rw [abs_sub_comm]
    exact (le_sub_iff_add_le'.mpr hwest).trans (le_abs_self _)
  · refine ⟨⟨19.0, -5.0, 19.0, 5.0⟩, by simp [arenaWalls], meets_vertical ?_ ht hend hy⟩
    refine fast_of_reached ht htime ?_ hend
    exact (le_sub_iff_add_le'.mpr heast).trans (le_abs_self _)
  · refine ⟨⟨0.0, -5.0, 19.0, -5.0⟩, by simp [arenaWalls], meets_horizontal ?_ ht hx hend⟩
    refine fast_of_reached ht htime ?_ hend
    rw [abs_sub_comm]
    exact (le_sub_iff_add_le'.mpr hsouth).trans (le_abs_self _)
  · refine ⟨⟨0.0, 5.0, 19.0, 5.0⟩, by simp [arenaWalls], meets_horizontal ?_ ht hx hend⟩
    refine fast_of_reached ht htime ?_ hend
    exact (le_sub_iff_add_le'.mpr hnorth).trans (le_abs_self _)

omit [CMath K] [IsStrictOrderedRing K] in
/-- Updates do not touch what stands still, so walls and parameters are those of the constructor. -/
theorem Scene.run_still [CMath K] (s : Scene K) (ticks : List (Tick K)) :
    (s.run ticks).params = s.params ∧ (s.run ticks).walls = s.walls := by
  induction ticks generalizing s with
  | nil => exact ⟨rfl, rfl⟩
  | cons t ticks ih => exact ih (s.update t)

/-- **No beam goes through the walls**: from a lidar that is off the walls, every range ends in
the arena, whatever else is in the scene and wherever the movers have got to. -/
theorem Scene.generateScan_inside (p : ScanParams K) (q : SceneParams K)
    (boxDraw : Nat → BoxDraw K) (draw : Nat → Draw K) (ticks : List (Tick K)) {x y theta : K}
    (hmax : 0 ≤ p.rangeMax)
    (hlidar : OffWalls p.rangeMax (((make p q boxDraw draw).run ticks).lidar x y theta)) :
    ∀ i : Fin p.beamCount, ∃ r,
      (((make p q boxDraw draw).run ticks).generateScan x y theta)[i.val]? = some r ∧
        reach (((make p q boxDraw draw).run ticks).lidar x y theta)
          (((make p q boxDraw draw).run ticks).beam theta i) r ∈ Set.Icc arenaLo arenaHi := by
  obtain ⟨hparams, hwalls⟩ := (make p q boxDraw draw).run_still ticks
  generalize (make p q boxDraw draw).run ticks = s at *
  intro i
  have hi : i.val < s.params.beamCount := hparams.symm ▸ i.isLt
  obtain ⟨hmem, hleast⟩ := s.isLeast_cast (s.lidar x y theta).1 (s.lidar x y theta).2
    (s.beamAngle theta i)
  refine ⟨_, s.getElem?_generateScan x y theta hi, ?_⟩
  generalize s.cast _ _ _ = r at *
  have hrange : s.params.rangeMax = p.rangeMax := congrArg ScanParams.rangeMax hparams
  have hle : r ≤ p.rangeMax := hrange ▸ hleast (Set.mem_insert _ _)
  have hr : 0 ≤ r := by
    obtain rfl | ⟨seg, -, hmeets⟩ := hmem
    · exact hrange ▸ hmax
    · exact hmeets.2.1
  have hin : s.lidar x y theta ∈ Set.Icc arenaLo arenaHi := by
    have hroom : 0 ≤ 1e-10 * p.rangeMax := mul_nonneg (by norm_num) hmax
    obtain ⟨hwest, heast, hsouth, hnorth⟩ := hlidar
    refine RayExit.mem_box.mpr ⟨⟨?_, ?_⟩, ?_, ?_⟩
    · exact (le_add_of_nonneg_right hroom).trans hwest
    · exact (le_add_of_nonneg_right hroom).trans heast
    · exact (le_add_of_nonneg_right hroom).trans hsouth
    · exact (le_add_of_nonneg_right hroom).trans hnorth
  by_contra hout
  obtain ⟨t, ht, hwall, hside⟩ := exists_side hin hr hout
  obtain ⟨seg, hseg, hmeets⟩ := exists_wall hlidar ht.1 (ht.2.trans_le hle) hwall hside
  have hedge : seg ∈ s.edges := by
    simp only [Scene.edges, hwalls, List.mem_append]
    exact .inl (.inl hseg)
  exact absurd (hleast (.inr ⟨seg, hedge, hmeets⟩)) (not_le.mpr ht.2)

/-- The same beam ends inside. -/
theorem Scene.generateScan_inside_start :
    ∃ r, (((make {} {} sameBox northDraw).run []).generateScan 2 0 0)[0]? = some r ∧
      reach (((make {} {} sameBox northDraw).run []).lidar 2 0 0)
        (((make {} {} sameBox northDraw).run []).beam 0 0) r ∈ Set.Icc arenaLo arenaHi := by
  refine generateScan_inside {} {} sameBox northDraw [] (by norm_num) ?_ (0 : Fin 360)
  simp only [OffWalls, lidar, run, make, arenaLo, arenaHi, List.foldl_nil, CMath.cos_real,
    CMath.sin_real, Real.cos_zero, Real.sin_zero]
  norm_num

end Arena

/-! ## The random boxes

A round adds a box or does nothing, and it adds one only where the tests allow. So the tests hold
of all pairs of boxes, whatever comes out of the generator. -/

theorem hypot_eq_norm (x y : ℝ) : hypot x y = ‖(⟨x, y⟩ : ℂ)‖ := by
  rw [hypot, CMath.sqrt_real, Complex.norm_def, Complex.normSq_mk]

theorem hypot_add_le (x y x' y' : ℝ) : hypot (x + x') (y + y') ≤ hypot x y + hypot x' y' := by
  rw [hypot_eq_norm, hypot_eq_norm, hypot_eq_norm]
  exact norm_add_le (⟨x, y⟩ : ℂ) ⟨x', y'⟩

theorem hypot_sub_comm (a b : ℝ × ℝ) :
    hypot (a.1 - b.1) (a.2 - b.2) = hypot (b.1 - a.1) (b.2 - a.2) := by
  rw [hypot, hypot]
  refine congrArg _ ?_
  ring

/-- The ground that a random box stands on: a square around its centre. -/
def ground (c : ℝ × ℝ) : Set (ℝ × ℝ) := {p | |p.1 - c.1| ≤ kHalf ∧ |p.2 - c.2| ≤ kHalf}

variable {c c' p b : ℝ × ℝ}

/-- From the centre of a box to its corner it is less than half a metre. -/
theorem hypot_ground_le (hp : p ∈ ground c) : hypot (p.1 - c.1) (p.2 - c.2) ≤ 1 / 2 := by
  refine le_of_sq_le_sq ?_ (by norm_num)
  have hx := abs_le.mp hp.1
  have hy := abs_le.mp hp.2
  simp only [kHalf] at hx hy
  norm_num at hx hy
  nlinarith [hypot_mul_self (p.1 - c.1) (p.2 - c.2)]

/-- What is some way from a centre is almost as far from the box, by the triangle inequality. -/
theorem le_hypot_of_ground {dist : ℝ} (hp : p ∈ ground c)
    (hdist : dist ≤ hypot (c.1 - b.1) (c.2 - b.2)) :
    dist - 1 / 2 ≤ hypot (p.1 - b.1) (p.2 - b.2) := by
  have htriangle := hypot_add_le (c.1 - p.1) (c.2 - p.2) (p.1 - b.1) (p.2 - b.2)
  rw [sub_add_sub_cancel, sub_add_sub_cancel, hypot_sub_comm c p] at htriangle
  linarith [hypot_ground_le hp]

/-- What holds of the centres while boxes are placed: far enough from each other and from the
start, inside the arena, and out of the aisle where there are racks. -/
structure Apart (p : ScanParams ℝ) (centers : List (ℝ × ℝ)) : Prop where
  few : (centers.length : Int) ≤ max 0 p.randomBoxes
  pairwise : centers.Pairwise fun a b => 2.0 ≤ hypot (b.1 - a.1) (b.2 - a.2)
  start : ∀ c ∈ centers, 2.5 ≤ hypot (c.1 - 2.0) (c.2 - 0.0)
  inside : ∀ c ∈ centers, c.1 ∈ Set.Icc 3.0 17.0 ∧ c.2 ∈ Set.Icc (-4.0) 4.0
  racks : p.sceneName = "rack_3c" → ∀ c ∈ centers, c.1 ≤ 3.5 ∨ 10.5 ≤ c.1

theorem Apart.nil (p : ScanParams ℝ) : Apart p [] where
  few := le_max_left _ _
  pairwise := .nil
  start := nofun
  inside := nofun
  racks := nofun

/-- One round keeps the boxes apart: the new one was tested against the start and against all
others. -/
theorem Apart.round {p : ScanParams ℝ} {centers : List (ℝ × ℝ)} (h : Apart p centers)
    (draw : Nat → BoxDraw ℝ) (guard : Nat) : Apart p (spawnBoxRound p draw centers guard) := by
  simp only [spawnBoxRound]
  split_ifs with hroom hstart hracks hnear
  · exact h
  · exact h
  · exact h
  · refine ⟨?_, ?_, ?_, ?_, fun hname => ?_⟩
    · rw [List.length_append, List.length_singleton, Nat.cast_succ]
      exact (Int.add_one_le_of_lt hroom).trans (le_max_right _ _)
    · refine List.pairwise_append.mpr ⟨h.pairwise, List.pairwise_singleton _ _, ?_⟩
      intro a ha b hb
      obtain rfl := List.mem_singleton.mp hb
      exact not_lt.mp fun hlt => hnear ⟨a, ha, hlt⟩
    · rw [List.forall_mem_append, List.forall_mem_singleton]
      exact ⟨h.start, not_lt.mp hstart⟩
    · rw [List.forall_mem_append, List.forall_mem_singleton]
      exact ⟨h.inside, (draw guard).x_mem, (draw guard).y_mem⟩
    · rw [List.forall_mem_append, List.forall_mem_singleton]
      refine ⟨h.racks hname, ?_⟩
      obtain hleft | hright := le_or_gt (draw guard).x 3.5
      · exact .inl hleft
      · exact .inr (not_lt.mp fun hlt => hracks ⟨hname, hright, hlt⟩)
  · exact h

theorem apart_spawnRandomBoxes (p : ScanParams ℝ) (draw : Nat → BoxDraw ℝ) :
    Apart p (spawnRandomBoxes p draw) :=
  List.foldlRecOn (motive := Apart p) _ _ (.nil p) fun _ h guard _ => h.round draw guard

/-- There are two metres around where the robot starts, in which there is no random box. -/
theorem Apart.far {p : ScanParams ℝ} {centers : List (ℝ × ℝ)} (h : Apart p centers)
    (hc : c ∈ centers) {a : ℝ × ℝ} (ha : a ∈ ground c) : 2 ≤ hypot (a.1 - 2) (a.2 - 0) := by
  have hstart := le_hypot_of_ground (b := (2.0, 0.0)) ha (h.start c hc)
  norm_num at hstart ⊢
  exact hstart

/-- **The random boxes stand apart**, whatever is drawn: there are at most as many as asked for,
there is a metre between any two, and two metres around where the robot starts; they are inside
the arena, and not on the racks. -/
theorem randomBoxes_apart (p : ScanParams ℝ) (q : SceneParams ℝ) (boxDraw : Nat → BoxDraw ℝ)
    (draw : Nat → Draw ℝ) :
    ((Scene.make p q boxDraw draw).randomCenters.length : Int) ≤ max 0 p.randomBoxes ∧
      ((Scene.make p q boxDraw draw).randomCenters.Pairwise fun c c' =>
        ∀ a ∈ ground c, ∀ b ∈ ground c', 1 ≤ hypot (b.1 - a.1) (b.2 - a.2)) ∧
      ∀ c ∈ (Scene.make p q boxDraw draw).randomCenters, ∀ a ∈ ground c,
        2 ≤ hypot (a.1 - 2) (a.2 - 0) ∧ a.1 ∈ Set.Ioo 0 19 ∧ a.2 ∈ Set.Ioo (-5) 5 ∧
          (p.sceneName = "rack_3c" → a.1 ∉ Set.Icc (7 - 3) (7 + 3)) := by
  have h : Apart p (Scene.make p q boxDraw draw).randomCenters := by
    simp only [Scene.make]
    exact apart_spawnRandomBoxes p boxDraw
  generalize (Scene.make p q boxDraw draw).randomCenters = centers at h ⊢
  refine ⟨h.few, h.pairwise.imp ?_, fun c hc a ha => ?_⟩
  · intro c c' hapart a ha b hb
    have hfirst := le_hypot_of_ground hb hapart
    rw [hypot_sub_comm] at hfirst
    have hsecond := le_hypot_of_ground ha hfirst
    rw [hypot_sub_comm b a]
    refine le_trans ?_ hsecond
    norm_num
  · obtain ⟨⟨hxlo, hxhi⟩, hylo, hyhi⟩ := h.inside c hc
    obtain ⟨hax, hax'⟩ := abs_le.mp ha.1
    obtain ⟨hay, hay'⟩ := abs_le.mp ha.2
    simp only [kHalf] at hax hax' hay hay'
    have hfar := h.far hc ha
    norm_num at hfar hxlo hxhi hylo hyhi hax hax' hay hay' ⊢
    refine ⟨hfar, ⟨by linarith, by linarith⟩, ⟨by linarith, by linarith⟩, fun hname hlo => ?_⟩
    obtain hleft | hright := h.racks hname c hc
    · norm_num at hleft
      linarith
    · norm_num at hright
      linarith

end AmrFramework.Simulation
