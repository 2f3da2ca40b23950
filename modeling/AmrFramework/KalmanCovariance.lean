import AmrFramework.KalmanFilter
import AmrFramework.Runs
import Mathlib.Algebra.Order.Star.Real
import Mathlib.Analysis.Matrix.PosDef
import Mathlib.Tactic.NormNum

/-!
# What a measurement does to the covariance

The covariance of the filter is symmetric and positive semidefinite after every call
(`covariance_invariant`): both the prediction and the Joseph form keep it so, for any
gain.

An accepted measurement loses no information, except for the first one. That is
corrected with the gain of the noise alone, which is too large as long as the
measurement is more accurate than the estimate (`update_reduces_iff`). And a first
measurement that is refused has been written to the state by then
(`rejected_update_iff`).
-/

namespace AmrFramework.Perception

universe u

open Matrix Runs

namespace KalmanFilter2D

/-- The calls of a filter, in any order: predictions before the first measurement and refused
measurements included. -/
inductive Call (K : Type u) : Type u
  | predict (dt ax ay : K)
  | update (z R : Fin 2 → K)

section Calls

variable {K : Type u} [Field K] [LinearOrder K] [CMath K]

def call (model : MeasureModel) (kf : KalmanFilter2D K) : Call K → KalmanFilter2D K
  | .predict dt ax ay => kf.predict dt ax ay
  | .update z R => (kf.update model z R).2

/-- Noise variances are not negative. -/
def Call.NoiseNonneg : Call K → Prop
  | .predict .. => True
  | .update _ R => ∀ i, 0 ≤ R i

/-- The calls whose noise is one. -/
def Calls (model : MeasureModel) : KalmanFilter2D K → Call K → KalmanFilter2D K → Prop :=
  only (fun _ c => c.NoiseNonneg) fun kf c kf' => kf.call model c = kf'

variable {model : MeasureModel} {kf : KalmanFilter2D K} {z R : Fin 2 → K}

/-! ## Refused measurements

`init_from_measurement` writes the position before anyone has looked at the range, and the test
of the determinant comes after that. Later measurements are tested before anything is written. -/

/-- **A refused measurement** changes nothing exactly when it is not the first one, or when it is
a range that is not positive and points to where the state is already: `init_from_measurement`
writes the state before it answers that it cannot be used. -/
theorem rejected_update_iff (h : (kf.update model z R).1 = false) :
    (kf.update model z R).2 = kf ↔ kf.initialized = true ∨
      (model = .rangeBearing ∧ z 0 ≤ 0 ∧
        kf.state 0 = z 0 * CMath.cos (z 1) ∧ kf.state 1 = z 0 * CMath.sin (z 1)) := by
  cases hinit : kf.initialized with
  | true =>
    rw [update_of_initialized hinit] at h ⊢
    exact iff_of_true (correct_of_false h) (.inl rfl)
  | false =>
    cases hok : (model.initFromMeasurement z kf.state).1 with
    | true =>
      rw [update_of_first hinit hok]
      refine iff_of_false (fun heq => ?_) ?_
      · have hflag := congrArg initialized heq
        rw [correct_initialized, hinit] at hflag
        cases hflag
      · rintro (hflag | ⟨rfl, hz, -⟩)
        · cases hflag
        · exact not_lt.mpr hz (of_decide_eq_true hok)
    | false =>
      rw [update_of_refused hinit hok]
      cases model with
      | linear => cases hok
      | rangeBearing =>
        have hz : z 0 ≤ 0 := not_lt.mp (of_decide_eq_false hok)
        have hstate : ({ kf with state := (MeasureModel.rangeBearing.initFromMeasurement z
            kf.state).2 } : KalmanFilter2D K) = kf ↔
              (MeasureModel.rangeBearing.initFromMeasurement z kf.state).2 = kf.state :=
          ⟨congrArg state, fun heq => by rw [heq]⟩
        simp only [hstate, Bool.false_eq_true, false_or, hz, true_and]
        rw [funext_iff, Fin.forall_fin_succ, Fin.forall_fin_succ]
        simp [MeasureModel.initFromMeasurement, Fin.forall_fin_two, eq_comm]

/-- A filter that knows where it is refuses an outlier, and stays as it is. -/
theorem rejected_update_outlier :
    let kf : KalmanFilter2D ℝ := { state := ![1, 2, 0, 0], cov := 1, initialized := true }
    (kf.update .linear ![100, 2] ![1, 1]).1 = false ∧
      (kf.update .linear ![100, 2] ![1, 1]).2 = kf := by
  intro kf
  have hrefused : (kf.update .linear ![100, 2] ![1, 1]).1 = false := by
    rw [update_of_initialized rfl, ← Bool.not_eq_true, correct_accepts_iff]
    rintro ⟨hgate, -⟩
    -- the innovation in the first direction is 99, and its variance is 2
    have hfar := of_decide_eq_true hgate 0
    have hvariance : JosephForm.innovation kf.cov (MeasureModel.linear.jacobian kf.state)
        (diagonal ![1, 1]) 0 0 = 2 := by
      simp [JosephForm.innovation, MeasureModel.jacobian, kf, vecMul, dotProduct,
        Fin.sum_univ_succ]
      norm_num
    rw [hvariance, CMath.sqrt_real] at hfar
    have hroot : Real.sqrt 2 < 2 := by
      rw [Real.sqrt_lt' two_pos]
      norm_num
    refine hfar ⟨Real.sqrt_pos.mpr two_pos, ?_⟩
    norm_num [MeasureModel.h, kMahaThreshold, kf]
    linarith
  exact ⟨hrefused, (rejected_update_iff hrefused).mpr (.inl rfl)⟩

/-- A negative range is refused, and the filter is moved to it. -/
theorem not_rejected_update :
    ¬∀ (model : MeasureModel) (kf : KalmanFilter2D ℝ) (z R : Fin 2 → ℝ),
      (kf.update model z R).1 = false → (kf.update model z R).2 = kf := by
  intro h
  have hrefused :
      (reset : KalmanFilter2D ℝ).update .rangeBearing ![-1, 0] ![0.1, 0.1] = (false, _) :=
    update_of_refused rfl (by norm_num [MeasureModel.initFromMeasurement])
  have heq := h .rangeBearing reset ![-1, 0] ![0.1, 0.1] (by rw [hrefused])
  rw [hrefused] at heq
  have hx := congrFun (congrArg KalmanFilter2D.state heq) 0
  norm_num [MeasureModel.initFromMeasurement, reset] at hx

end Calls

/-! ## The covariance

The invariant needs no case for the first measurement: the Joseph form is a covariance for every
gain, the wrong one included. -/

section Covariance

variable {model : MeasureModel} {kf kf' : KalmanFilter2D ℝ} {z R : Fin 2 → ℝ}

/-- The diagonal that a filter starts with, -/
theorem reset_posSemidef : (reset : KalmanFilter2D ℝ).cov.PosSemidef := by
  refine PosSemidef.diagonal fun i => ?_
  fin_cases i <;> norm_num

/-- a congruence and a diagonal that is added, -/
theorem predict_posSemidef (h : kf.cov.PosSemidef) (dt ax ay : ℝ) :
    (kf.predict dt ax ay).cov.PosSemidef := by
  rw [predict_cov]
  refine (JosephForm.posSemidef_mul_mul_transpose h (motion dt)).add (PosSemidef.diagonal ?_)
  intro i
  fin_cases i <;> norm_num [kQdiag]

/-- A measurement leaves the covariance alone, or brings it to the Joseph form for some gain. -/
theorem update_cov_cases (model : MeasureModel) (kf : KalmanFilter2D ℝ) (z R : Fin 2 → ℝ) :
    (kf.update model z R).2.cov = kf.cov ∨ ∃ (G : Matrix (Fin 4) (Fin 2) ℝ)
      (H : Matrix (Fin 2) (Fin 4) ℝ),
      (kf.update model z R).2.cov = JosephForm.joseph kf.cov G H (diagonal R) := by
  have hcorrect : ∀ (kf' : KalmanFilter2D ℝ) S, kf'.cov = kf.cov →
      (kf'.correct model z R S).2.cov = kf.cov ∨ ∃ G H,
        (kf'.correct model z R S).2.cov = JosephForm.joseph kf.cov G H (diagonal R) := by
    intro kf' S hcov
    cases hacc : (kf'.correct model z R S).1 with
    | true => exact .inr ⟨_, _, hcov ▸ (correct_of_true hacc).2⟩
    | false => exact .inl (by rw [correct_of_false hacc, hcov])
  cases hinit : kf.initialized with
  | true =>
    rw [update_of_initialized hinit]
    exact hcorrect kf _ rfl
  | false =>
    cases hok : (model.initFromMeasurement z kf.state).1 with
    | true =>
      rw [update_of_first hinit hok]
      exact hcorrect _ _ rfl
    | false => exact .inl (by rw [update_of_refused hinit hok])

theorem diagonal_posSemidef (hR : ∀ i, 0 ≤ R i) : (diagonal R).PosSemidef := PosSemidef.diagonal hR

/-- and the Joseph form are all covariances. -/
theorem update_posSemidef (h : kf.cov.PosSemidef) (hR : ∀ i, 0 ≤ R i) :
    (kf.update model z R).2.cov.PosSemidef := by
  rcases update_cov_cases model kf z R with hcov | ⟨G, H, hcov⟩
  · rwa [hcov]
  · rw [hcov]
    exact JosephForm.joseph_posSemidef h (diagonal_posSemidef hR)

/-- So every run keeps it one. -/
theorem posSemidef_of_run {h : List (Call ℝ)} (hr : Run (Calls model) reset h kf) :
    kf.cov.PosSemidef :=
  hr.invariant (I := fun _ kf => kf.cov.PosSemidef)
    reset_posSemidef fun h kf c kf' hkf ⟨hnoise, hcall⟩ => by
      subst hcall
      cases c with
      | predict dt ax ay => exact predict_posSemidef hkf dt ax ay
      | update z R => exact update_posSemidef hkf hnoise

/-- **The covariance stays one**, whatever the calls. The gate, the singular case and the first
measurement need no case of their own: each leaves the covariance alone or brings it to the Joseph
form for some gain, and that form is semidefinite for every gain, so the slip of the first
measurement does no harm here. -/
theorem covariance_invariant {h : List (Call ℝ)} (hr : Run (Calls model) reset h kf) :
    kf.cov.IsSymm ∧ kf.cov.PosSemidef := by
  have hpos := posSemidef_of_run hr
  exact ⟨JosephForm.isSymm_of_posSemidef hpos, hpos⟩

/-- The covariance of an innovation is no less singular than the noise. -/
theorem le_det_innovation (h : kf.cov.PosSemidef) (H : Matrix (Fin 2) (Fin 4) ℝ)
    (hR : ∀ i, 0 ≤ R i) :
    R 0 * R 1 ≤ JosephForm.innovation kf.cov H (diagonal R) 0 0 *
        JosephForm.innovation kf.cov H (diagonal R) 1 1 -
      JosephForm.innovation kf.cov H (diagonal R) 0 1 *
        JosephForm.innovation kf.cov H (diagonal R) 1 0 := by
  have hpos := JosephForm.posSemidef_mul_mul_transpose h H
  have hdet := hpos.det_nonneg
  rw [det_fin_two] at hdet
  simp only [JosephForm.innovation, Matrix.add_apply, diagonal_apply_eq,
    diagonal_apply_ne' _ (zero_ne_one' (Fin 2)), diagonal_apply_ne _ (zero_ne_one' (Fin 2)),
    add_zero]
  linarith [mul_nonneg (hpos.diag_nonneg (i := 0)) (hR 1),
    mul_nonneg (hpos.diag_nonneg (i := 1)) (hR 0)]

/-- A position that is where the filter expects it is accepted, whatever the filter knows. -/
theorem update_accepts_expected (hinit : kf.initialized = true) (hpos : kf.cov.PosSemidef)
    (hR : ∀ i, 0 ≤ R i) (hnoise : 1e-12 ≤ R 0 * R 1) :
    (kf.update .linear ![kf.state 0, kf.state 1] R).1 = true := by
  rw [update_of_initialized hinit]
  refine correct_accepts_iff.mpr ⟨decide_eq_true fun i => ?_, ?_⟩
  · have hzero : ![kf.state 0, kf.state 1] i - MeasureModel.linear.h kf.state i = 0 := by
      fin_cases i <;> exact sub_self _
    rintro ⟨hsig, hfar⟩
    simp only [hzero, abs_zero, kMahaThreshold] at hfar
    exact absurd hfar (mul_pos three_pos hsig).not_gt
  · exact hnoise.trans ((le_det_innovation hpos _ hR).trans (le_abs_self _))

/-- Two measurements that are accepted, each after a prediction. -/
theorem covariance_invariant_measured :
    let first := ((reset : KalmanFilter2D ℝ).predict 1 0 0).update .linear ![1, 2] ![1, 1]
    let moved := first.2.predict 1 0.5 0
    let second := moved.update .linear ![moved.state 0, moved.state 1] ![1, 1]
    first.1 = true ∧ second.1 = true ∧ second.2.cov.IsSymm ∧ second.2.cov.PosSemidef := by
  intro first moved second
  have hR : ∀ i, (0 : ℝ) ≤ ![1, 1] i := by
    intro i
    fin_cases i <;> norm_num
  have hfirst : Run (Calls .linear) (reset : KalmanFilter2D ℝ)
      [.predict 1 0.5 0, .update ![1, 2] ![1, 1], .predict 1 0 0] moved :=
    ((Run.start.snoc ⟨trivial, rfl⟩).snoc ⟨hR, rfl⟩).snoc ⟨trivial, rfl⟩
  have hcall : Calls .linear moved (.update ![moved.state 0, moved.state 1] ![1, 1]) second.2 :=
    ⟨hR, rfl⟩
  refine ⟨update_accepts_first rfl (by norm_num), ?_, covariance_invariant (hfirst.snoc hcall)⟩
  exact update_accepts_expected update_linear_initialized (posSemidef_of_run hfirst) hR (by norm_num)

/-! ## What a measurement takes off the covariance

An update with the gain `G` of some matrix `S` takes `G (2 S - innovation) Gᵀ` off the covariance
(`JosephForm.sub_joseph`). For the innovation itself that is a square. For the noise alone, which
is what the first measurement uses, it is `G (N - H P Hᵀ) Gᵀ`, and this is a matter of whether
the noise is larger than what the filter knew.

To decide that by the diagonal, the two directions must not be correlated before the first
measurement; `Untouched` says so. -/

/-- Before the first measurement the two directions have nothing to do with each other.
Predictions keep this, so the first measurement finds them so. -/
structure Untouched (kf : KalmanFilter2D ℝ) : Prop where
  position : kf.cov 0 1 = 0
  sight : kf.cov 0 3 = 0
  speed : kf.cov 2 1 = 0
  velocity : kf.cov 2 3 = 0
  x_pos : 0 < kf.cov 0 0
  y_pos : 0 < kf.cov 1 1

/-- It holds of the initial diagonal, -/
theorem untouched_reset : Untouched (reset : KalmanFilter2D ℝ) := by
  refine ⟨?_, ?_, ?_, ?_, ?_, ?_⟩ <;> simp [reset]

theorem predict_apply (kf : KalmanFilter2D ℝ) (dt ax ay : ℝ) (i j : Fin 4) :
    (kf.predict dt ax ay).cov i j =
      (motion dt * kf.cov * (motion dt)ᵀ) i j + if i = j then kQdiag i else 0 := by
  rw [predict_cov, Matrix.add_apply, diagonal_apply]

/-- and the motion, which is the same for both directions, keeps it. -/
theorem Untouched.predict (h : Untouched kf) (hpos : kf.cov.PosSemidef) (dt ax ay : ℝ) :
    Untouched (kf.predict dt ax ay) := by
  have hmoved := JosephForm.posSemidef_mul_mul_transpose hpos (motion dt)
  have hx := hmoved.diag_nonneg (i := 0)
  have hy := hmoved.diag_nonneg (i := 1)
  refine ⟨?_, ?_, ?_, ?_, ?_, ?_⟩
  · simp [predict_apply, motion, mul_apply, vecMul, dotProduct, Fin.sum_univ_four, h.position,
      h.sight, h.speed, h.velocity]
  · simp [predict_apply, motion, mul_apply, vecMul, dotProduct, Fin.sum_univ_four, h.sight,
      h.velocity]
  · simp [predict_apply, motion, mul_apply, vecMul, dotProduct, Fin.sum_univ_four, h.speed,
      h.velocity]
  · simp [predict_apply, motion, mul_apply, vecMul, dotProduct, Fin.sum_univ_four, h.velocity]
  · rw [predict_apply]
    norm_num [kQdiag]
    linarith
  · rw [predict_apply]
    norm_num [kQdiag]
    linarith

/-- Until the first measurement there were only predictions. -/
theorem untouched_of_run {h : List (Call ℝ)} (hr : Run (Calls .linear) reset h kf)
    (hinit : kf.initialized = false) : Untouched kf := by
  have hinv := hr.invariant
    (I := fun _ kf => kf.cov.PosSemidef ∧ (kf.initialized = false → Untouched kf))
    ⟨reset_posSemidef, fun _ => untouched_reset⟩ fun h kf c kf' ⟨hpos, hfresh⟩ ⟨hnoise, hcall⟩ => by
      subst hcall
      cases c with
      | predict dt ax ay =>
        exact ⟨predict_posSemidef hpos dt ax ay, fun hinit => (hfresh hinit).predict hpos dt ax ay⟩
      | update z R =>
        exact ⟨update_posSemidef hpos hnoise, fun hinit =>
          absurd (update_linear_initialized.symm.trans hinit) (by decide)⟩
  exact hinv.2 hinit

/-- What the first measurement takes off the covariance, in terms of what it is short of the
noise. -/
theorem Untouched.sub_cov (h : Untouched kf) (hsymm : kf.cov.IsSymm)
    (hinit : kf.initialized = false) (hR : ∀ i, 0 < R i)
    (hacc : (kf.update .linear z R).1 = true) :
    ∃ G : Matrix (Fin 4) (Fin 2) ℝ, G 0 0 ≠ 0 ∧ G 0 1 = 0 ∧ G 1 0 = 0 ∧ G 1 1 ≠ 0 ∧
      kf.cov - (kf.update .linear z R).2.cov =
        G * diagonal ![R 0 - kf.cov 0 0, R 1 - kf.cov 1 1] * Gᵀ := by
  rw [update_of_first hinit rfl] at hacc ⊢
  obtain ⟨H, hH⟩ : ∃ H : Matrix (Fin 2) (Fin 4) ℝ, H = !![1, 0, 0, 0; 0, 1, 0, 0] := ⟨_, rfl⟩
  have hcov := (correct_of_true hacc).2
  simp only [MeasureModel.jacobian, ← hH] at hcov
  have hdet : diagonal R 0 0 * diagonal R 1 1 - diagonal R 0 1 * diagonal R 1 0 ≠ 0 := by
    simpa using ⟨(hR 0).ne', (hR 1).ne'⟩
  have hgain : gain kf.cov H (diagonal R) * diagonal R = kf.cov * Hᵀ := gain_mul hdet
  have hswap : kf.cov 1 0 = 0 := (hsymm.apply 0 1).trans h.position
  have hposition : H * kf.cov * Hᵀ = diagonal ![kf.cov 0 0, kf.cov 1 1] := by
    ext i j
    fin_cases i <;> fin_cases j <;>
      simp [hH, mul_apply, vecMul, dotProduct, Fin.sum_univ_four, h.position, hswap]
  -- the entries of the gain, times the noise, are those of the covariance
  have hx : ∀ i, gain kf.cov H (diagonal R) i 0 * R 0 = kf.cov i 0 := by
    intro i
    rw [← mul_diagonal, hgain]
    simp [hH, mul_apply, Fin.sum_univ_four]
  have hy : ∀ i, gain kf.cov H (diagonal R) i 1 * R 1 = kf.cov i 1 := by
    intro i
    rw [← mul_diagonal, hgain]
    simp [hH, mul_apply, Fin.sum_univ_four]
  refine ⟨gain kf.cov H (diagonal R), ?_, ?_, ?_, ?_, ?_⟩
  · exact left_ne_zero_of_mul (hx 0 ▸ h.x_pos.ne')
  · exact (mul_eq_zero.mp ((hy 0).trans h.position)).resolve_right (hR 1).ne'
  · exact (mul_eq_zero.mp ((hx 1).trans hswap)).resolve_right (hR 0).ne'
  · exact left_ne_zero_of_mul (hy 1 ▸ h.y_pos.ne')
  · rw [hcov, JosephForm.sub_joseph_of_noise hsymm (isSymm_diagonal R) hgain, hposition,
      diagonal_sub]
    congr 3
    funext i
    fin_cases i <;> rfl

theorem mul_diagonal_mul_transpose_apply (G : Matrix (Fin 4) (Fin 2) ℝ) (d : Fin 2 → ℝ)
    (i : Fin 4) : (G * diagonal d * Gᵀ) i i = G i 0 * d 0 * G i 0 + G i 1 * d 1 * G i 1 := by
  rw [mul_apply, Fin.sum_univ_two, mul_diagonal, mul_diagonal, transpose_apply, transpose_apply]

/-- The exact condition, for a filter that has only predicted so far: in both coordinates the
variance of the measurement is at least that of the estimate. -/
theorem Untouched.reduces_iff (h : Untouched kf) (hsymm : kf.cov.IsSymm)
    (hinit : kf.initialized = false) (hR : ∀ i, 0 < R i)
    (hacc : (kf.update .linear z R).1 = true) :
    (kf.cov - (kf.update .linear z R).2.cov).PosSemidef ↔
      kf.cov 0 0 ≤ R 0 ∧ kf.cov 1 1 ≤ R 1 := by
  obtain ⟨G, hx, hxy, hyx, hy, heq⟩ := h.sub_cov hsymm hinit hR hacc
  rw [heq]
  constructor
  · intro hpos
    have hvx := hpos.diag_nonneg (i := 0)
    have hvy := hpos.diag_nonneg (i := 1)
    rw [mul_diagonal_mul_transpose_apply, hxy, zero_mul, zero_mul, add_zero,
      mul_right_comm] at hvx
    rw [mul_diagonal_mul_transpose_apply, hyx, zero_mul, zero_mul, zero_add,
      mul_right_comm] at hvy
    refine ⟨?_, ?_⟩
    · exact sub_nonneg.mp ((mul_nonneg_iff_of_pos_left (mul_self_pos.mpr hx)).mp hvx)
    · exact sub_nonneg.mp ((mul_nonneg_iff_of_pos_left (mul_self_pos.mpr hy)).mp hvy)
  · rintro ⟨hlex, hley⟩
    refine JosephForm.posSemidef_mul_mul_transpose (diagonal_posSemidef fun i => ?_) G
    fin_cases i
    · exact sub_nonneg.mpr hlex
    · exact sub_nonneg.mpr hley

/-- **A measurement loses no information** exactly when it is not the first one, or when it is
less accurate than the estimate was. The first one should have been the most useful, and is
harmful as soon as it is any good: its gain is computed as if the filter knew its position
already. -/
theorem update_reduces_iff {h : List (Call ℝ)} (hr : Run (Calls .linear) reset h kf)
    (hR : ∀ i, 0 < R i) (hacc : (kf.update .linear z R).1 = true) :
    (kf.cov - (kf.update .linear z R).2.cov).PosSemidef ↔
      kf.initialized = true ∨ (kf.cov 0 0 ≤ R 0 ∧ kf.cov 1 1 ≤ R 1) := by
  have hpos := posSemidef_of_run hr
  have hsymm := JosephForm.isSymm_of_posSemidef hpos
  cases hinit : kf.initialized with
  | true =>
    refine iff_of_true ?_ (.inl rfl)
    rw [update_of_initialized hinit] at hacc ⊢
    have hdet := (correct_accepts_iff.mp hacc).2
    have hne := abs_pos.mp ((by norm_num : (0 : ℝ) < 1e-12).trans_le hdet)
    rw [(correct_of_true hacc).2,
      JosephForm.sub_joseph_of_gain hsymm (isSymm_diagonal R) (gain_mul hne)]
    exact JosephForm.posSemidef_mul_mul_transpose
      (JosephForm.innovation_posSemidef hpos (diagonal_posSemidef fun i => (hR i).le)) _
  | false =>
    rw [(untouched_of_run hr hinit).reduces_iff hsymm hinit hR hacc]
    simp

/-- A position that is measured to 10 m. -/
theorem update_reduces_coarse :
    ((reset : KalmanFilter2D ℝ).cov -
      (reset.update .linear ![1, 1] ![100, 100]).2.cov).PosSemidef := by
  refine (update_reduces_iff (h := []) .start ?_ ?_).mpr (.inr ?_)
  · intro i
    fin_cases i <;> norm_num
  · exact update_accepts_first rfl (by norm_num)
  · norm_num [reset]

/-- A position that is measured to 30 cm leaves a filter that knew it to 10 m worse off. -/
theorem not_update_reduces :
    ¬∀ (h : List (Call ℝ)) (kf : KalmanFilter2D ℝ) (z R : Fin 2 → ℝ),
      Run (Calls .linear) reset h kf → (∀ i, 0 < R i) → (kf.update .linear z R).1 = true →
        (kf.cov - (kf.update .linear z R).2.cov).PosSemidef := by
  intro hall
  have hR : ∀ i, (0 : ℝ) < ![0.1, 0.1] i := by
    intro i
    fin_cases i <;> norm_num
  have hacc : (reset.update .linear ![1, 1] ![0.1, 0.1] : Bool × KalmanFilter2D ℝ).1 = true :=
    update_accepts_first rfl (by norm_num)
  have hle := (untouched_reset.reduces_iff (JosephForm.isSymm_of_posSemidef reset_posSemidef) rfl hR
    hacc).mp (hall [] reset ![1, 1] ![0.1, 0.1] .start hR hacc)
  have hfalse := hle.1
  norm_num [reset] at hfalse

end Covariance

end KalmanFilter2D

end AmrFramework.Perception
