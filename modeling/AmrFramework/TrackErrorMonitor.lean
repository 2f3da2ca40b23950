import AmrFramework.PurePursuit

/-!
# The tracking error

`TrackErrorMonitor` measures the signed distance of the robot to the nearest
segment of the path, slows down beyond a first threshold and stops beyond a
second one.

The distance is signed by the side on which the robot is, and everything that is decided goes by
its absolute value. A path of fewer than two waypoints has no segments, and stops the robot, too.
-/

namespace AmrFramework.Execution

universe u

variable {K : Type u} [Field K]

inductive TrackErrorLevel : Type
  | ok
  | warn
  | error
  deriving DecidableEq, Repr

/-- `TrackErrorMonitor::Params`. -/
structure MonitorParams (K : Type u) [Field K] : Type u where
  /-- lateral error: slow down -/
  warnThreshold : K := 0.15
  /-- lateral error: stop -/
  stopThreshold : K := 0.40

/-- `TrackErrorMonitor::State`: what is returned of one evaluation. -/
structure TrackErrorState (K : Type u) : Type u where
  /-- signed distance to the nearest segment -/
  lateralError : K
  /-- multiplier for the speed -/
  speedScale : K
  level : TrackErrorLevel

variable [LinearOrder K] [CMath K]

/-- How far down the segment from `a` to `b` the nearest point lies. -/
def segmentParam (p a b : Waypoint K) : K :=
  let abx := b.x - a.x
  let aby := b.y - a.y
  let apx := p.x - a.x
  let apy := p.y - a.y
  let ab2 := abx * abx + aby * aby
  clamp (if 1e-12 < ab2 then (apx * abx + apy * aby) / ab2 else 0) 0 1

/-- The point at a fraction of the way from `a` to `b`. -/
def alongSegment (a b : Waypoint K) (t : K) : Waypoint K :=
  ⟨a.x + t * (b.x - a.x), a.y + t * (b.y - a.y)⟩

/-- `point_segment_dist`: the distance to the segment from `a` to `b`, negative
to its right. -/
def pointSegmentDist (p a b : Waypoint K) : K :=
  let dist := dist2d p (alongSegment a b (segmentParam p a b))
  let cross := (b.x - a.x) * (p.y - a.y) - (b.y - a.y) * (p.x - a.x)
  if 0 ≤ cross then 1 * dist else -1 * dist

/-- The loop of `signed_dist_to_path`, from the start of a segment on. Of two segments at the
same distance the first one wins. -/
def closestSegment (p : Waypoint K) : Waypoint K → List (Waypoint K) → K → K
  | _, [], best => best
  | a, b :: path, best =>
    let dist := pointSegmentDist p a b
    closestSegment p b path (if |dist| < |best| then dist else best)

/-- `signed_dist_to_path`. -/
def signedDistToPath (p : Waypoint K) : List (Waypoint K) → K
  | [] => floatMax
  | a :: path => closestSegment p a path floatMax

/-- `TrackErrorMonitor::evaluate`. -/
def MonitorParams.evaluate (m : MonitorParams K) (current : Pose2D K) (path : List (Waypoint K)) :
    TrackErrorState K :=
  if path.length < 2 then ⟨0, 0, .error⟩
  else
    let lateralError := signedDistToPath current.position path
    if m.stopThreshold ≤ |lateralError| then ⟨lateralError, 0, .error⟩
    else if m.warnThreshold ≤ |lateralError| then
      let t := (|lateralError| - m.warnThreshold) / (m.stopThreshold - m.warnThreshold)
      ⟨lateralError, clamp (1 - t) 0 1, .warn⟩
    else ⟨lateralError, 1, .ok⟩

/-! ## Segments

The loop takes a minimum over the segments, which are the pairs of neighbours. What is needed of
it is only when the minimum is at least some `d`. -/

/-- The segments of a polyline: start and end. -/
def segments (path : List (Waypoint K)) : List (Waypoint K × Waypoint K) := path.zip path.tail

/-- The nearest segment is at a distance when all are. By induction over the path; the best so
far is one more bound. -/
theorem le_closestSegment_iff {p a : Waypoint K} {path : List (Waypoint K)} {best d : K} :
    d ≤ |closestSegment p a path best| ↔
      d ≤ |best| ∧ ∀ s ∈ segments (a :: path), d ≤ |pointSegmentDist p s.1 s.2| := by
  induction path generalizing a best with
  | nil => simp [closestSegment, segments]
  | cons b path ih =>
    rw [closestSegment, ih]
    have hsegments : segments (a :: b :: path) = (a, b) :: segments (b :: path) := rfl
    rw [hsegments, List.forall_mem_cons]
    split_ifs with hlt
    · constructor
      · rintro ⟨hdist, hrest⟩
        exact ⟨hdist.trans hlt.le, hdist, hrest⟩
      · rintro ⟨-, hdist, hrest⟩
        exact ⟨hdist, hrest⟩
    · constructor
      · rintro ⟨hbest, hrest⟩
        exact ⟨hbest, hbest.trans (not_lt.mp hlt), hrest⟩
      · rintro ⟨hbest, -, hrest⟩
        exact ⟨hbest, hrest⟩

/-- Every point of a segment is at least at the distance `d`. This says nothing about how the
nearest point of the segment is computed. -/
def AwayFrom (d : K) (p : Waypoint K) (s : Waypoint K × Waypoint K) : Prop :=
  ∀ t, 0 ≤ t → t ≤ 1 → d ≤ dist2d p (alongSegment s.1 s.2 t)

variable [IsStrictOrderedRing K]

/-- The distance that is computed is that of a point of the segment. -/
theorem AwayFrom.le_pointSegmentDist {d : K} {p : Waypoint K} {s : Waypoint K × Waypoint K}
    (h : AwayFrom d p s) : d ≤ |pointSegmentDist p s.1 s.2| := by
  obtain ⟨a, b⟩ := s
  have hpoint := h (segmentParam p a b) (le_clamp zero_le_one) (clamp_le zero_le_one)
  refine hpoint.trans ((le_abs_self _).trans_eq ?_)
  simp only [pointSegmentDist]
  split_ifs
  · rw [one_mul]
  · rw [neg_one_mul, abs_neg]

/-- The monitor stops when there is no path, or every segment is too far away. -/
theorem MonitorParams.evaluate_error_iff {m : MonitorParams K} {current : Pose2D K}
    {path : List (Waypoint K)} (hstop : m.stopThreshold ≤ floatMax) :
    (m.evaluate current path).level = .error ↔
      path.length < 2 ∨
        ∀ s ∈ segments path, m.stopThreshold ≤ |pointSegmentDist current.position s.1 s.2| := by
  have hmax : (0 : K) ≤ floatMax := by norm_num [floatMax]
  obtain _ | ⟨a, path⟩ := path
  · simp [MonitorParams.evaluate]
  · have hdist : m.stopThreshold ≤ |signedDistToPath current.position (a :: path)| ↔
        ∀ s ∈ segments (a :: path),
          m.stopThreshold ≤ |pointSegmentDist current.position s.1 s.2| := by
      rw [signedDistToPath, le_closestSegment_iff, abs_of_nonneg hmax, and_iff_right hstop]
    rw [← hdist]
    simp only [MonitorParams.evaluate]
    split_ifs with hlen hfar hwarn
    · exact iff_of_true rfl (.inl hlen)
    · exact iff_of_true rfl (.inr hfar)
    · exact iff_of_false (by simp) (not_or.mpr ⟨hlen, hfar⟩)
    · exact iff_of_false (by simp) (not_or.mpr ⟨hlen, hfar⟩)

/-- The scale of a deviation between the thresholds is positive. -/
theorem MonitorParams.speedScale_pos (m : MonitorParams K) (current : Pose2D K)
    (path : List (Waypoint K)) (hlevel : (m.evaluate current path).level ≠ .error) :
    0 < (m.evaluate current path).speedScale ∧ (m.evaluate current path).speedScale ≤ 1 := by
  simp only [MonitorParams.evaluate] at hlevel ⊢
  split_ifs at hlevel ⊢ with hlen hfar hwarn
  · exact absurd rfl hlevel
  · exact absurd rfl hlevel
  · have hlt := not_le.mp hfar
    have hpos : 0 < m.stopThreshold - m.warnThreshold := sub_pos.mpr (hwarn.trans_lt hlt)
    have hscale : (|signedDistToPath current.position path| - m.warnThreshold) /
        (m.stopThreshold - m.warnThreshold) < 1 := (div_lt_one hpos).mpr (by linarith)
    have hnonneg := div_nonneg (sub_nonneg.mpr hwarn) hpos.le
    simp only
    rw [clamp_eq (by linarith) (by linarith)]
    exact ⟨by linarith, by linarith⟩
  · exact ⟨zero_lt_one, le_rfl⟩

/-! ## At the start of the path

The loop puts the start of the path under the robot in each round. There the distance to the
first segment is zero, and so the whole error is. -/

theorem dist2d_self (p : Waypoint ℝ) : dist2d p p = 0 := by
  rw [dist2d, sub_self, sub_self, mul_zero, add_zero, CMath.sqrt_real, Real.sqrt_zero]

/-- A robot at the start of a segment has no distance to it. -/
theorem pointSegmentDist_start (a b : Waypoint ℝ) : pointSegmentDist a a b = 0 := by
  have hparam : segmentParam a a b = 0 := by
    simp [segmentParam, clamp]
  have hfoot : alongSegment a b 0 = a := by
    simp [alongSegment]
  simp [pointSegmentDist, hparam, hfoot, dist2d_self]

/-- A robot at the start of the path is on it. -/
theorem MonitorParams.evaluate_start {m : MonitorParams ℝ} {current : Pose2D ℝ} {b : Waypoint ℝ}
    {path : List (Waypoint ℝ)} (hwarn : 0 < m.warnThreshold) (hstop : 0 < m.stopThreshold) :
    (m.evaluate current (current.position :: b :: path)).level = .ok := by
  have hclose : ∀ d : ℝ, 0 < d →
      ¬ d ≤ |signedDistToPath current.position (current.position :: b :: path)| := by
    intro d hd hle
    have hfirst := (le_closestSegment_iff.mp hle).2 (current.position, b) List.mem_cons_self
    rw [pointSegmentDist_start, abs_zero] at hfirst
    exact absurd hd (not_lt.mpr hfirst)
  have hlen : ¬ (current.position :: b :: path).length < 2 := by
    simp
  simp only [MonitorParams.evaluate, if_neg hlen, if_neg (hclose _ hstop), if_neg (hclose _ hwarn)]

end AmrFramework.Execution
