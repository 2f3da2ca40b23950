import AmrFramework.ClusterDetector

/-!
# Depth obstacles

The depth camera sees one horizontal line. `DepthObstacleDetector::detect` cuts
it into runs of consecutive valid depths and reports a centroid for each long
enough run. `merge` adds these to the clusters of the lidar, which win where
both see the same obstacle.

The scanning loop keeps the run in progress in a buffer and empties it in three places: at an
invalid depth, at a step between two depths, and after the last ray. `DepthRun.flush` is the code
of all three.
-/

namespace AmrFramework.Perception

universe u

variable {K : Type u} [Field K]

/-- The parameters that `detect` reads. -/
structure DepthObstacleParams (K : Type u) [Field K] : Type u where
  numRays : Nat := 121
  /-- 60° -/
  fovRad : K := 1.0472
  minDepthM : K := 0.2
  maxDepthM : K := 5.0
  /-- consecutive valid rays that form a cluster -/
  minRunLength : Int := 3
  /-- a larger gap between adjacent depths splits -/
  depthBreakM : K := 0.3
  cameraX : K := 0.0
  cameraY : K := 0.0

/-- The variables of the scanning loop: the clusters closed so far, the points of the current
run, and the last depth, with which the next one is compared. -/
structure DepthRun (K : Type u) [Field K] : Type u where
  clusters : List (Cluster K) := []
  /-- the points of the current run -/
  run : List (K × K) := []
  lastValidMm : K := 0.0

/-- End the current run. -/
def DepthRun.flush (p : DepthObstacleParams K) (s : DepthRun K) : DepthRun K :=
  { s with
    clusters :=
      if p.minRunLength ≤ s.run.length then
        s.clusters ++
          [{ x := (s.run.map Prod.fst).sum / s.run.length
             y := (s.run.map Prod.snd).sum / s.run.length
             z := 0.0
             pointCount := s.run.length
             id := "cam_" ++ toString s.clusters.length
             category := "low" }]
      else s.clusters
    run := [] }

variable [LinearOrder K] [CMath K]

/-- One ray, with its depth in millimetres. -/
def DepthRun.ray (p : DepthObstacleParams K) (s : DepthRun K) (depth : Nat) (i : Nat) :
    DepthRun K :=
  let dMm : K := depth
  if dMm ≠ 0.0 ∧ p.minDepthM * 1000.0 < dMm ∧ dMm < p.maxDepthM * 1000.0 then
    let theta := -p.fovRad / 2.0 + i * (p.fovRad / (p.numRays - 1 : Nat))
    let dM := dMm / 1000.0
    -- an obstacle in front of a wall is not fused with the wall
    let s := if s.run ≠ [] ∧ p.depthBreakM * 1000.0 < |dMm - s.lastValidMm| then s.flush p else s
    { s with
      run := s.run ++ [(p.cameraX + dM * CMath.cos theta, p.cameraY + dM * CMath.sin theta)]
      lastValidMm := dMm }
  else { s.flush p with lastValidMm := 0.0 }

/-- `DepthObstacleDetector::detect`. A line of the wrong length is not looked at, and a run that
reaches the end of the line is ended after the loop. -/
def DepthObstacleParams.detect (p : DepthObstacleParams K) (depthMm : List Nat) :
    List (Cluster K) :=
  if depthMm.length ≠ p.numRays then []
  else if p.numRays < 2 then []
  else
    let scanned : DepthRun K := depthMm.zipIdx.foldl (fun s (d, i) => s.ray p d i) {}
    (scanned.flush p).clusters

/-- `DepthObstacleDetector::merge`. -/
def merge (lidar depth : List (Cluster K)) (mergeRadius : K := 0.4) : List (Cluster K) :=
  lidar ++ depth.filter fun dc => !lidar.any fun lc =>
    let dx := dc.x - lc.x
    let dy := dc.y - lc.y
    decide (CMath.sqrt (dx * dx + dy * dy) ≤ mergeRadius)

end AmrFramework.Perception
