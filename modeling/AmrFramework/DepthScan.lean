import AmrFramework.DepthObstacleDetector
import AmrFramework.LinkedRuns

/-!
# The clusters of a depth scanline

`detect` goes over the line once, with one buffer for the run in progress that is flushed at a
ray without a valid depth, at a step in the depth, and at the end. What it returns is one
cluster for each maximal run of valid rays without a step that is long enough, in the order of
the rays (`DepthObstacleParams.detect_spec`). Sizes are unbounded here, as elsewhere: the casts
of `run.size()` to `int` change none below `2 ^ 31`.
-/

namespace AmrFramework.Perception

open LinkedRuns

universe u

variable {K : Type u} [Field K] [CMath K]

/-! ## Runs and their clusters

A run is a pair of its first ray and its length. A cluster is computed from that pair alone, and
since the loop sees the line from the left, what is said of a shorter line must hold of a longer
one too; the lemmas with `snoc` say so. -/

/-- The point of a ray. -/
def DepthObstacleParams.point (p : DepthObstacleParams K) (ray : Nat × Nat) : K × K :=
  let theta := -p.fovRad / 2.0 + ray.2 * (p.fovRad / (p.numRays - 1 : Nat))
  let dM := (ray.1 : K) / 1000.0
  (p.cameraX + dM * CMath.cos theta, p.cameraY + dM * CMath.sin theta)

/-- The points of a run: its first ray, and how many. -/
def DepthObstacleParams.points (p : DepthObstacleParams K) (depthMm : List Nat) (r : Nat × Nat) :
    List (K × K) :=
  (segment depthMm.zipIdx r.1 r.2).map p.point

/-- The cluster of a run, the `i`-th one. -/
def DepthObstacleParams.cluster (p : DepthObstacleParams K) (depthMm : List Nat) (i : Nat)
    (r : Nat × Nat) : Cluster K :=
  { x := ((p.points depthMm r).map Prod.fst).sum / r.2
    y := ((p.points depthMm r).map Prod.snd).sum / r.2
    z := 0.0
    pointCount := r.2
    id := "cam_" ++ toString i
    category := "low" }

/-- The runs that are long enough. -/
def DepthObstacleParams.long (p : DepthObstacleParams K) (runs : List (Nat × Nat)) :
    List (Nat × Nat) :=
  runs.filter fun r => p.minRunLength ≤ r.2

variable {p : DepthObstacleParams K} {depthMm : List Nat}

/-- A run that ended does not change when the line goes on, -/
theorem DepthObstacleParams.points_snoc {r : Nat × Nat} (hr : r.1 + r.2 ≤ depthMm.length)
    (depth : Nat) : p.points (depthMm ++ [depth]) r = p.points depthMm r := by
  rw [points, points, List.zipIdx_append, segment_append (by rwa [List.length_zipIdx])]

/-- one that is in progress gets the next point, -/
theorem DepthObstacleParams.points_extend {start count : Nat}
    (h : start + count = depthMm.length) (depth : Nat) :
    p.points (depthMm ++ [depth]) (start, count + 1) =
      p.points depthMm (start, count) ++ [p.point (depth, depthMm.length)] := by
  rw [points, points, List.zipIdx_append, Nat.zero_add]
  exact (congrArg (List.map p.point)
    (segment_snoc (by rwa [List.length_zipIdx]) (depth, depthMm.length))).trans
      List.map_append

/-- A run has as many points as rays. -/
theorem DepthObstacleParams.length_points {r : Nat × Nat} (hr : r.1 + r.2 ≤ depthMm.length) :
    (p.points depthMm r).length = r.2 := by
  rw [points, List.length_map, length_segment (by rwa [List.length_zipIdx])]

/-- and so the cluster of an ended run stays the same -/
theorem DepthObstacleParams.cluster_snoc {r : Nat × Nat} (hr : r.1 + r.2 ≤ depthMm.length)
    (depth i : Nat) : p.cluster (depthMm ++ [depth]) i r = p.cluster depthMm i r := by
  rw [cluster, cluster, points_snoc hr]

/-- as do those of all of them. -/
theorem DepthObstacleParams.clusters_snoc {runs : List (Nat × Nat)}
    (hruns : ∀ r ∈ runs, r.1 + r.2 ≤ depthMm.length) (depth : Nat) :
    (p.long runs).mapIdx (p.cluster (depthMm ++ [depth])) =
      (p.long runs).mapIdx (p.cluster depthMm) := by
  refine List.mapIdx_eq_mapIdx_iff.mpr fun i hi => ?_
  exact cluster_snoc (hruns _ (List.mem_of_mem_filter (List.getElem_mem hi))) depth i

/-! ## The loop

`Scanned` is its invariant: `runs` are the maximal runs that have ended, `k` rays of one more are
in the buffer, and the clusters are those of the ended ones that were long enough. What runs
there are comes from the library (`MaximalRuns`), which knows nothing of depths. -/

variable [LinearOrder K]

/-- A depth that is used. -/
def DepthObstacleParams.Valid (p : DepthObstacleParams K) (depth : Nat) : Prop :=
  (depth : K) ≠ 0.0 ∧ p.minDepthM * 1000.0 < (depth : K) ∧ (depth : K) < p.maxDepthM * 1000.0

/-- No step between adjacent depths. -/
def DepthObstacleParams.Joined (p : DepthObstacleParams K) (depth depth' : Nat) : Prop :=
  |(depth' : K) - depth| ≤ p.depthBreakM * 1000.0

/-- The state of the loop after some depths: `runs` are the maximal runs that have ended, and the
last `k` depths form the run that has not. -/
structure DepthRun.Scanned (p : DepthObstacleParams K) (depthMm : List Nat) (s : DepthRun K)
    (runs : List (Nat × Nat)) (k : Nat) : Prop where
  trailing : Trailing p.Valid p.Joined depthMm k
  ended : Ended p.Valid p.Joined depthMm runs
  run : s.run = p.points depthMm (depthMm.length - k, k)
  clusters : s.clusters = (p.long runs).mapIdx (p.cluster depthMm)
  last : 0 < k → depthMm.getLast?.map Nat.cast = some s.lastValidMm

namespace DepthRun.Scanned

variable {s : DepthRun K} {runs : List (Nat × Nat)} {k : Nat}

/-- The buffer has as many points as the run in progress has rays, -/
theorem length_run (h : Scanned p depthMm s runs k) : s.run.length = k := by
  have hk := h.trailing.le_length
  rw [h.run, DepthObstacleParams.length_points (Nat.sub_add_cancel hk).le]

/-- so it is empty between two runs. -/
theorem run_eq_nil (h : Scanned p depthMm s runs k) : s.run = [] ↔ k = 0 := by
  rw [← List.length_eq_zero_iff, h.length_run]

/-- The run in progress has ended. -/
theorem flush (h : Scanned p depthMm s runs k) (hmin : 1 ≤ p.minRunLength) :
    (s.flush p).clusters =
      (p.long (runs ++ current depthMm k)).mapIdx (p.cluster depthMm) := by
  rw [DepthRun.flush]
  simp only [h.length_run]
  obtain rfl | hpos := Nat.eq_zero_or_pos k
  · rw [if_neg (by omega), current, if_neg (lt_irrefl 0), List.append_nil]
    exact h.clusters
  · rw [current, if_pos hpos, DepthObstacleParams.long, List.filter_append]
    split_ifs with hlong
    · rw [List.filter_cons_of_pos (by simpa using hlong), List.filter_nil, List.mapIdx_append,
        h.clusters, h.run]
      simp [DepthObstacleParams.cluster, DepthObstacleParams.long]
    · rw [List.filter_cons_of_neg (by simpa using hlong), List.filter_nil, List.append_nil]
      exact h.clusters

/-- One ray. -/
theorem ray (h : Scanned p depthMm s runs k) (hmin : 1 ≤ p.minRunLength) (depth : Nat) :
    ∃ runs' k', Scanned p (depthMm ++ [depth]) (s.ray p depth depthMm.length) runs' k' := by
  have hk := h.trailing.le_length
  have hle : ∀ r ∈ runs ++ current depthMm k, r.1 + r.2 ≤ depthMm.length := fun r hr =>
    ((h.ended.finish h.trailing r).mp hr).run.le_length
  have hlast : (depthMm ++ [depth]).getLast?.map (Nat.cast : Nat → K) = some (depth : K) := by
    rw [List.getLast?_concat, Option.map_some]
  rw [DepthRun.ray]
  by_cases hvalid : p.Valid depth
  · have hvalid' := hvalid
    rw [DepthObstacleParams.Valid] at hvalid'
    simp only [if_pos hvalid']
    by_cases hstep : s.run ≠ [] ∧ p.depthBreakM * 1000.0 < |(depth : K) - s.lastValidMm|
    · -- a step in the depth: the ray begins a run
      rw [if_pos hstep]
      have hpos : 0 < k := Nat.pos_of_ne_zero fun hzero => hstep.1 (h.run_eq_nil.mpr hzero)
      have htrailing : Trailing p.Valid p.Joined (depthMm ++ [depth]) 1 := by
        refine h.trailing.restart hvalid fun _ => ?_
        obtain ⟨b, hb, hcast⟩ := Option.map_eq_some_iff.mp (h.last hpos)
        refine ⟨b, hb, ?_⟩
        rw [DepthObstacleParams.Joined, hcast]
        exact not_le.mpr hstep.2
      refine ⟨runs ++ current depthMm k, 1, htrailing, h.ended.append h.trailing htrailing hpos,
        ?_, ?_, fun _ => hlast⟩
      · have hlen : (depthMm ++ [depth]).length - 1 = depthMm.length := by simp
        rw [hlen, DepthObstacleParams.points_extend (Nat.add_zero _), DepthObstacleParams.points,
          LinkedRuns.segment, List.take_zero]
        rfl
      · rw [DepthObstacleParams.clusters_snoc hle]
        exact h.flush hmin
    · -- the ray continues the run in progress
      rw [if_neg hstep]
      have htrailing : Trailing p.Valid p.Joined (depthMm ++ [depth]) (k + 1) := by
        refine h.trailing.extend hvalid fun hpos b hb => ?_
        have hcast := h.last hpos
        rw [hb, Option.map_some, Option.some.injEq] at hcast
        rw [DepthObstacleParams.Joined, hcast]
        exact not_lt.mp fun hlt => hstep ⟨fun hnil => hpos.ne' (h.run_eq_nil.mp hnil), hlt⟩
      refine ⟨runs, k + 1, htrailing, h.ended.extend h.trailing htrailing, ?_, ?_, fun _ => hlast⟩
      · have hlen : (depthMm ++ [depth]).length - (k + 1) = depthMm.length - k := by simp
        rw [hlen, DepthObstacleParams.points_extend (Nat.sub_add_cancel hk), h.run]
        rfl
      · rw [DepthObstacleParams.clusters_snoc fun r hr => hle r (List.mem_append_left _ hr)]
        exact h.clusters
  · have hvalid' := hvalid
    rw [DepthObstacleParams.Valid] at hvalid'
    simp only [if_neg hvalid']
    have htrailing : Trailing p.Valid p.Joined (depthMm ++ [depth]) 0 := trailing_stop hvalid
    refine ⟨runs ++ current depthMm k, 0, htrailing,
      h.ended.append h.trailing htrailing (Nat.zero_le k), ?_, ?_, fun hpos => absurd hpos
        (lt_irrefl 0)⟩
    · rfl
    · rw [DepthObstacleParams.clusters_snoc hle]
      exact h.flush hmin

end DepthRun.Scanned

/-- **The loop, after any number of rays.** By induction on the depths, from the back: one more
ray extends the current run, or ends it and begins another, or ends it and begins none. -/
theorem DepthRun.exists_scanned (hmin : 1 ≤ p.minRunLength) (depthMm : List Nat) :
    ∃ runs k, Scanned p depthMm
      (depthMm.zipIdx.foldl (fun (s : DepthRun K) (d, i) => s.ray p d i) {}) runs k := by
  induction depthMm using List.reverseRecOn with
  | nil =>
    exact ⟨[], 0, trailing_nil, ended_nil, rfl, rfl, fun hpos => absurd hpos (lt_irrefl 0)⟩
  | append_singleton depthMm depth ih =>
    obtain ⟨runs, k, h⟩ := ih
    rw [List.zipIdx_append, List.foldl_append, Nat.zero_add]
    exact h.ray hmin depth

/-- **Segmentation of the scanline.** What is returned is one cluster for each maximal run of
valid rays without a step in the depth that has `min_run_length` rays or more: in the order of
the rays, with the length of the run and the mean of its points. No two of the runs share a ray.

The loop after the whole line is `Scanned` (`DepthRun.exists_scanned`), and the last flush ends
the run in progress, if there is one (`DepthRun.Scanned.flush`). -/
theorem DepthObstacleParams.detect_spec (p : DepthObstacleParams K) (depthMm : List Nat)
    (hlen : depthMm.length = p.numRays) (hrays : 2 ≤ p.numRays) (hmin : 1 ≤ p.minRunLength) :
    ∃ runs : List (Nat × Nat),
      (runs.Pairwise fun r r' => r.1 + r.2 ≤ r'.1) ∧
      (∀ r : Nat × Nat, r ∈ runs ↔
        MaximalRun p.Valid p.Joined depthMm r.1 r.2 ∧ p.minRunLength ≤ r.2) ∧
      p.detect depthMm = runs.mapIdx (p.cluster depthMm) := by
  obtain ⟨runs, k, h⟩ := DepthRun.exists_scanned (p := p) hmin depthMm
  refine ⟨p.long (runs ++ current depthMm k), ?_, fun r => ?_, ?_⟩
  · exact (h.ended.pairwise_current h.trailing).filter _
  · rw [DepthObstacleParams.long, List.mem_filter, h.ended.finish h.trailing, decide_eq_true_iff]
  · rw [DepthObstacleParams.detect, if_neg (not_not.mpr hlen), if_neg (not_lt.mpr hrays)]
    exact h.flush hmin

/-- Six rays, and the other parameters as they are by default. -/
noncomputable def sixRays : DepthObstacleParams ℝ where
  numRays := 6

/-- Three rays see a box, and the next two something nearer. -/
theorem DepthObstacleParams.detect_spec_sixRays :
    ∃ runs : List (Nat × Nat),
      (runs.Pairwise fun r r' => r.1 + r.2 ≤ r'.1) ∧
      (∀ r : Nat × Nat, r ∈ runs ↔
        MaximalRun sixRays.Valid sixRays.Joined [0, 1000, 1010, 1020, 500, 510] r.1 r.2 ∧
          sixRays.minRunLength ≤ r.2) ∧
      sixRays.detect [0, 1000, 1010, 1020, 500, 510] =
        runs.mapIdx (sixRays.cluster [0, 1000, 1010, 1020, 500, 510]) :=
  DepthObstacleParams.detect_spec sixRays _ rfl (by decide) (by decide)

end AmrFramework.Perception
