import AmrFramework.KalmanCovariance
import AmrFramework.TrackerIdentity

/-!
# The filters of the tracks

The tracker does not look at whether a filter accepts the detection of its track. With an
association radius of at most 0.9 it does not have to: the variance of an innovation is at
least the 0.1 of the noise, and three standard deviations of that are more than 0.9
(`detections_absorbed`).

The bound on the innovation holds for a covariance that is positive semidefinite, so this is
where the invariant of the filter (`KalmanCovariance`) is needed by somebody else: it is carried
along in `Ready`, for every filter of the tracker and over every run of frames.
-/

namespace AmrFramework.Perception

universe u

open Matrix Runs

/-! ## The gate

All bounds are on the diagonal: the gate looks at each coordinate of the innovation on its own
and never at their correlation. -/

/-- The covariance of the innovation of a position. -/
def positionInnovation {K : Type u} [Field K] [LinearOrder K] [CMath K] (kf : KalmanFilter2D K) :
    Matrix (Fin 2) (Fin 2) K :=
  JosephForm.innovation kf.cov (MeasureModel.linear.jacobian kf.state) (diagonal defaultNoise)

section Gate

variable {kf : KalmanFilter2D ℝ}

theorem defaultNoise_nonneg (i : Fin 2) : (0 : ℝ) ≤ defaultNoise i := by
  fin_cases i <;> norm_num [defaultNoise]

/-- The variance of an innovation is at least the noise. -/
theorem noise_le_positionInnovation (h : kf.cov.PosSemidef) (i : Fin 2) :
    0.1 ≤ positionInnovation kf i i := by
  have hpos := JosephForm.posSemidef_mul_mul_transpose h (MeasureModel.linear.jacobian kf.state)
  have hdiag := hpos.diag_nonneg (i := i)
  have hnoise : (defaultNoise i : ℝ) = 0.1 := by fin_cases i <;> rfl
  rw [positionInnovation, JosephForm.innovation, Matrix.add_apply, diagonal_apply_eq, hnoise]
  exact le_add_of_nonneg_left hdiag

/-- Nor is the covariance singular. -/
theorem det_positionInnovation (h : kf.cov.PosSemidef) :
    0.01 ≤ positionInnovation kf 0 0 * positionInnovation kf 1 1 -
      positionInnovation kf 0 1 * positionInnovation kf 1 0 := by
  have hle := KalmanFilter2D.le_det_innovation h (MeasureModel.linear.jacobian kf.state)
    defaultNoise_nonneg
  refine le_trans ?_ hle
  norm_num [defaultNoise]

/-- Nothing within 0.9 of the estimate is an outlier. -/
theorem mahaCheck_of_near (h : kf.cov.PosSemidef) {y : Fin 2 → ℝ} (hy : ∀ i, |y i| ≤ 0.9) :
    KalmanFilter2D.mahaCheck y (positionInnovation kf) = true := by
  refine decide_eq_true fun i ⟨_, hfar⟩ => ?_
  have hsqrt : 0.3 ≤ √(positionInnovation kf i i) := by
    refine Real.le_sqrt_of_sq_le (le_trans ?_ (noise_le_positionInnovation h i))
    norm_num
  rw [CMath.sqrt_real, kMahaThreshold] at hfar
  linarith [hy i]

/-- The distance bounds both coordinates. -/
theorem abs_sub_le_dist (track : InternalTrack ℝ) (det : Cluster ℝ) (i : Fin 2) :
    |det.position i - MeasureModel.linear.h track.kf.state i| ≤ track.dist det := by
  rw [InternalTrack.dist, CMath.sqrt_real]
  refine Real.abs_le_sqrt ?_
  fin_cases i <;> simp [Cluster.position, MeasureModel.h] <;> nlinarith

/-- **A detection within 0.9 is accepted** by a filter that has a position. The noise alone makes
the innovation covariance large enough for the gate. -/
theorem InternalTrack.accepts_near {track : InternalTrack ℝ} {det : Cluster ℝ}
    (hnear : track.dist det ≤ 0.9) (hinit : track.kf.initialized = true)
    (hpos : track.kf.cov.PosSemidef) :
    (track.kf.update .linear det.position defaultNoise).1 = true := by
  rw [KalmanFilter2D.update_of_initialized hinit]
  refine KalmanFilter2D.correct_accepts_iff.mpr ⟨?_, ?_⟩
  · exact mahaCheck_of_near hpos fun i => (abs_sub_le_dist track det i).trans hnear
  · have hdet := det_positionInnovation hpos
    exact le_trans (by norm_num) (hdet.trans (le_abs_self _))

end Gate

/-! ## Over a run

A track is ready from its first frame on, since it is started with a measurement, and no frame
takes that away again. -/

/-- A filter that has a position and a covariance, so that its next measurement is not its first. -/
structure InternalTrack.Ready (track : InternalTrack ℝ) : Prop where
  initialized : track.kf.initialized = true
  posSemidef : track.kf.cov.PosSemidef
  missCount : 0 ≤ track.missCount

/-- In this frame every filter accepts the detection of its track, and what is reported as
seen is what a filter made of its detection. -/
structure Absorbs (t : MultiObjectTracker ℝ) (i : Frame ℝ) : Prop where
  accepted : ∀ track d, (track, some d) ∈ t.pairs i →
    ((track.kf.predict i.dt i.ax i.ay).update .linear (i.det d).position defaultNoise).1 = true
  corrected : ∀ obj ∈ (t.update i).1, obj.missCount = 0 →
    ∃ d < i.detections.length, ∃ kf : KalmanFilter2D ℝ,
      ((∃ track, (track, some d) ∈ t.pairs i ∧ track.id = obj.trackId ∧
          kf = track.kf.predict i.dt i.ax i.ay) ∨
        (d ∈ t.started i ∧ kf = KalmanFilter2D.reset.predict 0.01 0 0)) ∧
      (kf.update .linear (i.det d).position defaultNoise).1 = true ∧
      ![obj.x, obj.y, obj.vx, obj.vy] =
        (kf.update .linear (i.det d).position defaultNoise).2.state

section Step

variable {t : MultiObjectTracker ℝ} {i : Frame ℝ}

open MultiObjectTracker

/-- Neither the prediction nor a detection makes a filter less ready. -/
theorem InternalTrack.Ready.associated {p : InternalTrack ℝ × Option Nat} (h : p.1.Ready) :
    (associated i p).Ready := by
  have hpredict := KalmanFilter2D.predict_posSemidef h.posSemidef i.dt i.ax i.ay
  obtain ⟨track, _ | d⟩ := p
  · exact ⟨h.initialized, hpredict, h.missCount.trans (le_add_of_nonneg_right zero_le_one)⟩
  · exact ⟨KalmanFilter2D.update_linear_initialized,
      KalmanFilter2D.update_posSemidef hpredict defaultNoise_nonneg, le_rfl⟩

/-- The first position is accepted, so a new track is ready at once. -/
theorem spawnTrack_ready (id : Int) (det : Cluster ℝ) : (spawnTrack id det).Ready :=
  ⟨KalmanFilter2D.update_linear_initialized,
    KalmanFilter2D.update_posSemidef
      (KalmanFilter2D.predict_posSemidef KalmanFilter2D.reset_posSemidef _ _ _) defaultNoise_nonneg,
    le_rfl⟩

/-- **One frame** keeps the filters ready: predictions and accepted measurements keep
covariances, and a track is started from a position. -/
theorem ready_update (h : ∀ track ∈ t.tracks, track.Ready) (i : Frame ℝ) :
    ∀ track ∈ (t.update i).2.tracks, track.Ready := by
  intro track hmem
  rcases mem_grown t i (List.mem_of_mem_filter hmem) with ⟨p, hp, rfl⟩ | ⟨d, -, id, rfl⟩
  · exact (h p.1 (mem_pairs t i hp)).associated
  · exact spawnTrack_ready id (i.det d)

/-- In a frame whose tracks are all ready, nothing is refused: the detection of a track is within
the association radius of its prediction, so it is nearer than what the gate lets pass. -/
theorem absorbs (hradius : t.params.associationRadius ≤ 0.9) (h : ∀ track ∈ t.tracks, track.Ready)
    (i : Frame ℝ) : Absorbs t i := by
  have haccepted : ∀ track d, (track, some d) ∈ t.pairs i →
      ((track.kf.predict i.dt i.ax i.ay).update .linear (i.det d).position defaultNoise).1 =
        true := by
    intro track d hp
    have hready := h track (mem_pairs t i hp)
    have hpredict := KalmanFilter2D.predict_posSemidef hready.posSemidef i.dt i.ax i.ay
    have hreach := (reach_of_mem_pairs t i hp).2.le.trans hradius
    have haccept := InternalTrack.accepts_near hreach hready.initialized hpredict
    exact haccept
  refine ⟨haccepted, fun obj hobj hzero => ?_⟩
  obtain ⟨track, hmem, rfl⟩ := List.mem_map.mp hobj
  rcases mem_grown t i (List.mem_of_mem_filter hmem) with ⟨⟨old, m⟩, hp, rfl⟩ | ⟨d, hd, id, rfl⟩
  · cases m with
    | none =>
      -- a track that is not matched was missed at least once
      have hold := (h old (mem_pairs t i hp)).missCount
      have hmiss : old.missCount + 1 = 0 := hzero
      omega
    | some d =>
      refine ⟨d, (reach_of_mem_pairs t i hp).1, _, .inl ⟨old, hp, rfl, rfl⟩, haccepted old d hp, ?_⟩
      funext j
      fin_cases j <;> rfl
  · refine ⟨d, lt_of_mem_started t i hd, _, .inr ⟨hd, rfl⟩, ?_, ?_⟩
    · exact KalmanFilter2D.update_accepts_first rfl (by norm_num [defaultNoise])
    · funext j
      fin_cases j <;> rfl

end Step

/-- **Every detection is absorbed** by the filter of its track, in any frame after `reset`. The
tracks are ready in every state of a run (`ready_update`), and frames of ready tracks refuse
nothing (`absorbs`). -/
theorem detections_absorbed {t₀ t : MultiObjectTracker ℝ} {h : List (FrameRecord ℝ)}
    (hradius : t₀.params.associationRadius ≤ 0.9)
    (hrun : Run MultiObjectTracker.Frames t₀.reset h t) (i : Frame ℝ) : Absorbs t i := by
  have hinv := hrun.invariant
    (I := fun _ t => t.params = t₀.params ∧ ∀ track ∈ t.tracks, track.Ready) ⟨rfl, nofun⟩
    fun _ t _ t' ⟨hparams, hready⟩ ⟨i, _, ht⟩ => by
      subst ht
      exact ⟨hparams, ready_update hready i⟩
  exact absorbs (hinv.1 ▸ hradius) hinv.2 i

theorem detections_absorbed_second :
    let t : MultiObjectTracker ℝ := {}
    let i : Frame ℝ := { detections := [{}] }
    Absorbs (t.reset.update i).2 i := by
  intro t i
  have hrun : Run MultiObjectTracker.Frames t.reset [t.reset.record i] (t.reset.update i).2 :=
    .snoc .start ⟨i, rfl, rfl⟩
  exact detections_absorbed (by norm_num [t]) hrun i

end AmrFramework.Perception
