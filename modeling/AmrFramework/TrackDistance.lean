import AmrFramework.TrackErrorMonitor

/-!
# The distance to the path

What the tracking error means: its absolute value is the least Euclidean distance from the
robot to a point of the path (`isLeast_signedDistToPath`), and the speed is scaled by a
function of that distance alone (`evaluate_spec`).

The monitor projects the point to the line through a segment, clamps the parameter to the segment
and measures from there. That this is the distance to the segment is the projection theorem of
the plane, which holds for segments that the code does not take for points.
-/

namespace AmrFramework.Execution

/-- The distances from a point to those of a segment. -/
def segmentDists (p : Waypoint ℝ) (s : Waypoint ℝ × Waypoint ℝ) : Set ℝ :=
  (fun t => dist2d p (alongSegment s.1 s.2 t)) '' Set.Icc 0 1

/-- The Euclidean distance from a point to a segment. -/
noncomputable def segmentDist (p : Waypoint ℝ) (s : Waypoint ℝ × Waypoint ℝ) : ℝ :=
  sInf (segmentDists p s)

/-- A segment that is a point, or longer than a micrometre. In between, the code measures the
distance to the start of a segment that has some length. -/
def Proper (s : Waypoint ℝ × Waypoint ℝ) : Prop := s.1 = s.2 ∨ 1e-6 < dist2d s.1 s.2

/-! ## One segment

The distance to a point of the segment is a quadratic function of the parameter. Its minimum over
the line is at the projection, and its minimum over the segment is at the clamped one. -/

/-- Clamping is a projection: it goes to the bound on the way to any value in between. -/
theorem mul_clamp_nonneg {t x lo hi : ℝ} (hlo : lo ≤ t) (hhi : t ≤ hi) :
    0 ≤ (t - clamp x lo hi) * (clamp x lo hi - x) := by
  simp only [clamp]
  split_ifs with hx hx'
  · exact mul_nonneg (by linarith) (by linarith)
  · exact mul_nonneg_of_nonpos_of_nonpos (by linarith) (by linarith)
  · simp

theorem dist2d_sq (a b : Waypoint ℝ) : dist2d a b ^ 2 = (a.x - b.x) ^ 2 + (a.y - b.y) ^ 2 := by
  rw [dist2d, CMath.sqrt_real, Real.sq_sqrt (add_nonneg (mul_self_nonneg _) (mul_self_nonneg _))]
  ring

/-- The square of the distance to the point at a fraction of the segment. -/
theorem dist2d_alongSegment_sq (p a b : Waypoint ℝ) (t : ℝ) :
    dist2d p (alongSegment a b t) ^ 2 =
      (p.x - a.x - t * (b.x - a.x)) ^ 2 + (p.y - a.y - t * (b.y - a.y)) ^ 2 := by
  rw [dist2d_sq]
  simp only [alongSegment]
  ring

/-- A segment longer than a micrometre is not taken for a point. -/
theorem lt_sq_of_long {a b : Waypoint ℝ} (hlong : 1e-6 < dist2d a b) :
    1e-12 < (b.x - a.x) * (b.x - a.x) + (b.y - a.y) * (b.y - a.y) := by
  have hlt := pow_lt_pow_left₀ hlong (by norm_num) two_ne_zero
  rw [dist2d_sq] at hlt
  norm_num at hlt ⊢
  linarith

/-- The nearest point of a segment is where `segmentParam` says. The difference of the two
squares is a product that `mul_clamp_nonneg` says is not negative, and a square. -/
theorem dist2d_segmentParam_le {p a b : Waypoint ℝ} (hs : a = b ∨ 1e-6 < dist2d a b) {t : ℝ}
    (ht : 0 ≤ t) (ht' : t ≤ 1) :
    dist2d p (alongSegment a b (segmentParam p a b)) ≤ dist2d p (alongSegment a b t) := by
  refine le_of_sq_le_sq ?_ (Real.sqrt_nonneg _)
  rw [dist2d_alongSegment_sq, dist2d_alongSegment_sq]
  rcases hs with rfl | hlong
  · -- the segment is a point
    simp
  · obtain ⟨ab2, hab2⟩ : ∃ ab2, ab2 = (b.x - a.x) * (b.x - a.x) + (b.y - a.y) * (b.y - a.y) :=
      ⟨_, rfl⟩
    obtain ⟨x, hx⟩ : ∃ x, x = ((p.x - a.x) * (b.x - a.x) + (p.y - a.y) * (b.y - a.y)) / ab2 :=
      ⟨_, rfl⟩
    have hbig : 1e-12 < ab2 := hab2 ▸ lt_sq_of_long hlong
    have hpos : 0 < ab2 := lt_trans (by norm_num) hbig
    have hproj : x * ab2 = (p.x - a.x) * (b.x - a.x) + (p.y - a.y) * (b.y - a.y) := by
      rw [hx, div_mul_cancel₀ _ hpos.ne']
    -- `x` is where the perpendicular from the point meets the line
    have hparam : segmentParam p a b = clamp x 0 1 := by
      simp only [segmentParam, ← hab2, if_pos hbig, ← hx]
    have hclamp := mul_clamp_nonneg (x := x) ht ht'
    rw [hparam]
    -- the difference of the squares is that of the squares of the two parameters
    have hdiff : (p.x - a.x - t * (b.x - a.x)) ^ 2 + (p.y - a.y - t * (b.y - a.y)) ^ 2 -
        ((p.x - a.x - clamp x 0 1 * (b.x - a.x)) ^ 2 +
          (p.y - a.y - clamp x 0 1 * (b.y - a.y)) ^ 2) =
        ab2 * ((t - clamp x 0 1) ^ 2 + 2 * ((t - clamp x 0 1) * (clamp x 0 1 - x))) := by
      linear_combination (2 * (t - clamp x 0 1)) * hproj -
        (t ^ 2 - clamp x 0 1 ^ 2) * hab2
    have hnonneg :
        0 ≤ ab2 * ((t - clamp x 0 1) ^ 2 + 2 * ((t - clamp x 0 1) * (clamp x 0 1 - x))) :=
      mul_nonneg hpos.le (add_nonneg (sq_nonneg _) (mul_nonneg zero_le_two hclamp))
    linarith

/-- Without its sign, the distance that is computed is that to the segment. -/
theorem abs_pointSegmentDist {p : Waypoint ℝ} {s : Waypoint ℝ × Waypoint ℝ} (hs : Proper s) :
    |pointSegmentDist p s.1 s.2| = segmentDist p s := by
  have hparam : segmentParam p s.1 s.2 ∈ Set.Icc (0 : ℝ) 1 :=
    ⟨le_clamp zero_le_one, clamp_le zero_le_one⟩
  have hleast : IsLeast (segmentDists p s)
      (dist2d p (alongSegment s.1 s.2 (segmentParam p s.1 s.2))) := by
    refine ⟨⟨_, hparam, rfl⟩, ?_⟩
    rintro _ ⟨t, ⟨ht, ht'⟩, rfl⟩
    exact dist2d_segmentParam_le hs ht ht'
  have habs : |pointSegmentDist p s.1 s.2| =
      dist2d p (alongSegment s.1 s.2 (segmentParam p s.1 s.2)) := by
    have hnonneg : 0 ≤ dist2d p (alongSegment s.1 s.2 (segmentParam p s.1 s.2)) :=
      Real.sqrt_nonneg _
    simp only [pointSegmentDist]
    split_ifs
    · simp [abs_of_nonneg hnonneg]
    · simp [abs_of_nonneg hnonneg]
  rw [habs, segmentDist, hleast.csInf_eq]

/-! ## The path

The loop starts at the largest float, so all that has to be excluded is a path that is farther
away than that. -/

/-- The loop keeps the distance that it has, or takes that of a segment. -/
theorem closestSegment_cases (p a : Waypoint ℝ) (path : List (Waypoint ℝ)) (best : ℝ) :
    closestSegment p a path best = best ∨
      ∃ s ∈ segments (a :: path), closestSegment p a path best = pointSegmentDist p s.1 s.2 := by
  induction path generalizing a best with
  | nil => exact .inl rfl
  | cons b path ih =>
    have hsegments : segments (a :: b :: path) = (a, b) :: segments (b :: path) := rfl
    rw [closestSegment, hsegments]
    rcases ih b (if |pointSegmentDist p a b| < |best| then pointSegmentDist p a b else best) with
      hkept | ⟨s, hs, hfound⟩
    · rw [hkept]
      split_ifs
      · exact .inr ⟨(a, b), List.mem_cons_self, rfl⟩
      · exact .inl rfl
    · exact .inr ⟨s, List.mem_cons_of_mem _ hs, hfound⟩

/-- The tracking error is the least distance to a segment. -/
theorem isLeast_signedDistToPath {p : Waypoint ℝ} {path : List (Waypoint ℝ)}
    (hlen : 2 ≤ path.length) (hproper : ∀ s ∈ segments path, Proper s)
    (hmax : ∀ s ∈ segments path, segmentDist p s < floatMax) :
    IsLeast (segmentDist p '' {s | s ∈ segments path}) |signedDistToPath p path| := by
  obtain _ | ⟨a, _ | ⟨b, path⟩⟩ := path
  · simp at hlen
  · simp at hlen
  · have hle : ∀ s ∈ segments (a :: b :: path),
        |closestSegment p a (b :: path) floatMax| ≤ segmentDist p s := by
      intro s hs
      rw [← abs_pointSegmentDist (hproper s hs)]
      exact (le_closestSegment_iff.mp le_rfl).2 s hs
    constructor
    · rcases closestSegment_cases p a (b :: path) floatMax with hkept | ⟨s, hs, hfound⟩
      · -- the bound is beyond the first segment
        have hfirst : (a, b) ∈ segments (a :: b :: path) := List.mem_cons_self
        have hfar := (hle _ hfirst).trans_lt (hmax _ hfirst)
        rw [hkept] at hfar
        exact absurd (le_abs_self _) (not_le.mpr hfar)
      · refine ⟨s, hs, ?_⟩
        rw [← abs_pointSegmentDist (hproper s hs), ← hfound]
        rfl
    · rintro _ ⟨s, hs, rfl⟩
      exact hle s hs

/-! ## The speed

What is proved of the factor is what a user of it relies on: it is between 0 and 1, it falls with
the distance, it is 1 below the first threshold and 0 exactly from the second one on. -/

/-- The factor of the speed, from the distance to the path. -/
noncomputable def MonitorParams.scale (m : MonitorParams ℝ) (d : ℝ) : ℝ :=
  if m.stopThreshold ≤ d then 0
  else if m.warnThreshold ≤ d then
    clamp (1 - (d - m.warnThreshold) / (m.stopThreshold - m.warnThreshold)) 0 1
  else 1

theorem MonitorParams.speedScale_eq (m : MonitorParams ℝ) (current : Pose2D ℝ)
    {path : List (Waypoint ℝ)} (hlen : 2 ≤ path.length) :
    (m.evaluate current path).lateralError = signedDistToPath current.position path ∧
      (m.evaluate current path).speedScale =
        m.scale |signedDistToPath current.position path| := by
  simp only [MonitorParams.evaluate, MonitorParams.scale, if_neg (not_lt.mpr hlen)]
  split_ifs <;> exact ⟨rfl, rfl⟩

variable {m : MonitorParams ℝ}

theorem MonitorParams.scale_mem (m : MonitorParams ℝ) (d : ℝ) : 0 ≤ m.scale d ∧ m.scale d ≤ 1 := by
  rw [MonitorParams.scale]
  split_ifs
  · exact ⟨le_rfl, zero_le_one⟩
  · exact ⟨le_clamp zero_le_one, clamp_le zero_le_one⟩
  · exact ⟨zero_le_one, le_rfl⟩

/-- The robot stops from the second threshold on, and not before. -/
theorem MonitorParams.scale_eq_zero (hstop : m.warnThreshold < m.stopThreshold) {d : ℝ} :
    m.scale d = 0 ↔ m.stopThreshold ≤ d := by
  rw [MonitorParams.scale]
  split_ifs with hfar hnear
  · exact iff_of_true rfl hfar
  · refine iff_of_false ?_ hfar
    have hpos : 0 < m.stopThreshold - m.warnThreshold := sub_pos.mpr hstop
    have hlt : (d - m.warnThreshold) / (m.stopThreshold - m.warnThreshold) < 1 :=
      (div_lt_one hpos).mpr (by linarith [not_le.mp hfar])
    have hnonneg := div_nonneg (sub_nonneg.mpr hnear) hpos.le
    rw [clamp_eq (by linarith) (by linarith)]
    linarith
  · exact iff_of_false one_ne_zero hfar

theorem MonitorParams.antitone_scale (hstop : m.warnThreshold < m.stopThreshold) :
    Antitone m.scale := by
  intro d d' hle
  have hpos : 0 < m.stopThreshold - m.warnThreshold := sub_pos.mpr hstop
  obtain ⟨hnonneg, hone⟩ := m.scale_mem d
  obtain ⟨hnonneg', hone'⟩ := m.scale_mem d'
  by_cases hfar : m.stopThreshold ≤ d'
  · rw [(scale_eq_zero hstop).mpr hfar]
    exact hnonneg
  · by_cases hnear : m.warnThreshold ≤ d
    · -- both distances are on the ramp
      have hramp : ∀ x, m.warnThreshold ≤ x → ¬ m.stopThreshold ≤ x → m.scale x =
          clamp (1 - (x - m.warnThreshold) / (m.stopThreshold - m.warnThreshold)) 0 1 :=
        fun x hx hx' => (if_neg hx').trans (if_pos hx)
      rw [hramp d hnear fun hge => hfar (hge.trans hle), hramp d' (hnear.trans hle) hfar]
      refine clamp_mono (sub_le_sub_left ?_ 1) zero_le_one
      exact div_le_div_of_nonneg_right (sub_le_sub_right hle _) hpos.le
    · have hfull : m.scale d = 1 :=
        (if_neg fun hge => hfar (hge.trans hle)).trans (if_neg hnear)
      rw [hfull]
      exact hone'

/-- **The tracking error**, for every pose and every path of proper segments: it is the
distance to the path, and the speed falls with it, from full speed below the first
threshold to a stop from the second one on. -/
theorem MonitorParams.evaluate_spec (hstop : m.warnThreshold < m.stopThreshold) :
    ∃ scale : ℝ → ℝ, Antitone scale ∧ (∀ d, 0 ≤ scale d ∧ scale d ≤ 1) ∧
      (∀ d < m.warnThreshold, scale d = 1) ∧ (∀ d, scale d = 0 ↔ m.stopThreshold ≤ d) ∧
      ∀ (current : Pose2D ℝ) (path : List (Waypoint ℝ)), 2 ≤ path.length →
        (∀ s ∈ segments path, Proper s) →
        (∀ s ∈ segments path, segmentDist current.position s < floatMax) →
        IsLeast (segmentDist current.position '' {s | s ∈ segments path})
            |(m.evaluate current path).lateralError| ∧
          (m.evaluate current path).speedScale =
            scale |(m.evaluate current path).lateralError| := by
  refine ⟨m.scale, antitone_scale hstop, m.scale_mem, fun d hd => ?_,
    fun d => scale_eq_zero hstop, fun current path hlen hproper hmax => ?_⟩
  · exact (if_neg (not_le.mpr (hd.trans hstop))).trans (if_neg (not_le.mpr hd))
  · obtain ⟨herror, hscale⟩ := m.speedScale_eq current hlen
    rw [herror]
    exact ⟨isLeast_signedDistToPath hlen hproper hmax, hscale⟩

/-- At the start of its path the robot has no tracking error, and full speed. -/
theorem MonitorParams.evaluate_spec_start :
    (({} : MonitorParams ℝ).evaluate ⟨0, 0, 0⟩ [⟨0, 0⟩, ⟨1, 0⟩]).lateralError = 0 ∧
      (({} : MonitorParams ℝ).evaluate ⟨0, 0, 0⟩ [⟨0, 0⟩, ⟨1, 0⟩]).speedScale = 1 := by
  obtain ⟨scale, -, -, hfull, -, heval⟩ :=
    evaluate_spec (m := ({} : MonitorParams ℝ)) (by norm_num)
  have hstart : dist2d (⟨0, 0⟩ : Waypoint ℝ) (alongSegment ⟨0, 0⟩ ⟨1, 0⟩ 0) = 0 :=
    dist2d_eq le_rfl (by simp [alongSegment])
  have hlong : dist2d (⟨0, 0⟩ : Waypoint ℝ) ⟨1, 0⟩ = 1 := dist2d_eq zero_le_one (by norm_num)
  have hdist : segmentDist (⟨0, 0⟩ : Waypoint ℝ) (⟨0, 0⟩, ⟨1, 0⟩) ≤ 0 := by
    have hbelow : BddBelow (segmentDists (⟨0, 0⟩ : Waypoint ℝ) (⟨0, 0⟩, ⟨1, 0⟩)) := by
      refine ⟨0, ?_⟩
      rintro _ ⟨t, -, rfl⟩
      exact Real.sqrt_nonneg _
    exact (csInf_le hbelow ⟨0, ⟨le_rfl, zero_le_one⟩, rfl⟩).trans_eq hstart
  have honly : ∀ s ∈ segments [(⟨0, 0⟩ : Waypoint ℝ), ⟨1, 0⟩], s = (⟨0, 0⟩, ⟨1, 0⟩) := by
    intro s hs
    simpa [segments] using hs
  obtain ⟨hleast, hscale⟩ := heval ⟨0, 0, 0⟩ [⟨0, 0⟩, ⟨1, 0⟩] le_rfl
    (fun s hs => by rw [honly s hs, Proper, hlong]; norm_num)
    (fun s hs => by
      rw [honly s hs]
      exact hdist.trans_lt (by norm_num [floatMax]))
  have hzero := abs_nonpos_iff.mp ((hleast.2 ⟨_, List.mem_cons_self, rfl⟩).trans hdist)
  refine ⟨hzero, ?_⟩
  rw [hscale, hzero, abs_zero]
  exact hfull 0 (by norm_num)

end AmrFramework.Execution
