import AmrFramework.CMath
import AmrFramework.JosephForm
import Mathlib.LinearAlgebra.Matrix.Notation

/-!
# The Kalman filter

`KalmanFilter2D` keeps a position, a velocity and their covariance. The measurement
model is a parameter: the position itself, or its range and bearing from the origin.

All matrix products of the source are loops that add up in place. Two of them are
not products: the first measurement has its own copy of the computation of the
innovation covariance, where the running sum of `H * P` is set to zero inside the
innermost loop (`firstHp`).

So the definitions keep the loops, and a section of equations says which of them are the matrix
products of the textbook. What is proved about the filter afterwards speaks about matrices.
-/

namespace AmrFramework.Perception

universe u

open Matrix

variable {K : Type u} [Field K]

/-! ## Loops

The source has no matrix type: a product is three nested loops over arrays. `addUp` is the
innermost one, with the starting value as an argument, because not all of them start from zero. -/

section Loops

variable {l m n : Nat}

/-- `for (k = 0; k < n; ++k) a += term[k];` -/
def addUp (a : K) (term : Fin n → K) : K := (List.finRange n).foldl (fun a k => a + term k) a

/-- The product of two matrices, from zero. -/
def loopMul (A : Matrix (Fin l) (Fin m) K) (B : Matrix (Fin m) (Fin n) K) :
    Matrix (Fin l) (Fin n) K :=
  .of fun i j => addUp 0 fun k => A i k * B k j

/-- The product with a transposed matrix, from zero. -/
def loopMulT (A : Matrix (Fin l) (Fin m) K) (B : Matrix (Fin n) (Fin m) K) :
    Matrix (Fin l) (Fin n) K :=
  .of fun i j => addUp 0 fun k => A i k * B j k

/-- A loop that adds up is its starting value and the sum, -/
theorem addUp_eq (a : K) (term : Fin n → K) : addUp a term = a + ∑ k, term k := by
  have hfold : ∀ (ks : List (Fin n)) (a : K),
      ks.foldl (fun a k => a + term k) a = a + (ks.map term).sum := by
    intro ks
    induction ks with
    | nil => exact fun a => (add_zero a).symm
    | cons k ks ih =>
      intro a
      rw [List.foldl_cons, ih, List.map_cons, List.sum_cons, add_assoc]
  rw [addUp, hfold, Fin.sum_univ_def]

/-- so the nested loops are the product -/
@[simp] theorem loopMul_eq (A : Matrix (Fin l) (Fin m) K) (B : Matrix (Fin m) (Fin n) K) :
    loopMul A B = A * B := by
  ext i j
  rw [loopMul, of_apply, addUp_eq, zero_add, mul_apply]

/-- and the product with the transposed matrix. -/
@[simp] theorem loopMulT_eq (A : Matrix (Fin l) (Fin m) K) (B : Matrix (Fin n) (Fin m) K) :
    loopMulT A B = A * Bᵀ := by
  ext i j
  rw [loopMulT, of_apply, addUp_eq, zero_add, mul_apply]
  rfl

end Loops

/-! ## Measurement models

The two measurement models of the source, with one definition for each method and a case for each
model. `h` and its derivative guard against a range of zero, where the angle says nothing. -/

/-- `LinearMeasurement` and `RangeBearingMeasurement`. -/
inductive MeasureModel : Type
  | linear
  | rangeBearing
  deriving DecidableEq, Repr

section Models

variable [LinearOrder K] [CMath K]

/-- `h`: the measurement that a state predicts. -/
def MeasureModel.h : MeasureModel → (Fin 4 → K) → Fin 2 → K
  | linear, state => ![state 0, state 1]
  | rangeBearing, state =>
    let x := state 0
    let y := state 1
    let r := CMath.sqrt (x * x + y * y)
    ![r, if r > 1e-9 then CMath.atan2 y x else 0]

/-- The derivative of `h` at a state. The range is kept away from zero, where it has none. -/
def MeasureModel.jacobian : MeasureModel → (Fin 4 → K) → Matrix (Fin 2) (Fin 4) K
  | linear, _ => !![1, 0, 0, 0; 0, 1, 0, 0]
  | rangeBearing, state =>
    let x := state 0
    let y := state 1
    let r2 := x * x + y * y
    let r := CMath.sqrt r2
    if r > 1e-9 then !![x / r, y / r, 0, 0; -y / r2, x / r2, 0, 0] else 0

/-- `init_from_measurement`: whether the measurement can be used, and the state, which is
written in either case. -/
def MeasureModel.initFromMeasurement (model : MeasureModel) (z : Fin 2 → K) (state : Fin 4 → K) :
    Bool × (Fin 4 → K) :=
  match model with
  | linear => (true, ![z 0, z 1, state 2, state 3])
  | rangeBearing =>
    let r := z 0
    let theta := z 1
    (decide (r > 0), ![r * CMath.cos theta, r * CMath.sin theta, state 2, state 3])

end Models

/-! ## The filter

`update` has two halves. The first one finds the covariance of the innovation, in one way for a
filter that is initialised and in another for one that is not; `correct` is the second half,
which both share. -/

/-- The data members. -/
@[ext]
structure KalmanFilter2D (K : Type u) : Type u where
  /-- position and velocity -/
  state : Fin 4 → K
  cov : Matrix (Fin 4) (Fin 4) K
  initialized : Bool

def kMahaThreshold : K := 3

def kQdiag : Fin 4 → K := ![0.01, 0.01, 0.1, 0.1]

namespace KalmanFilter2D

/-- `reset`, and the constructor. -/
def reset : KalmanFilter2D K where
  state := 0
  cov := diagonal ![100, 100, 1, 1]
  initialized := false

/-- The motion of `dt` seconds. -/
def motion (dt : K) : Matrix (Fin 4) (Fin 4) K :=
  !![1, 0, dt, 0;
     0, 1, 0, dt;
     0, 0, 1, 0;
     0, 0, 0, 1]

/-- One step of the motion with a constant acceleration, and the noise of the model on the
diagonal. -/
def predict (kf : KalmanFilter2D K) (dt ax ay : K) : KalmanFilter2D K :=
  let f := motion dt
  let xNew i := addUp 0 fun j => f i j * kf.state j
  let u := ![0.5 * dt * dt * ax, 0.5 * dt * dt * ay, dt * ax, dt * ay]
  let fp := loopMul f kf.cov
  { kf with
    state := fun i => xNew i + u i
    cov := .of fun i j => loopMulT fp f i j + if i = j then kQdiag i else 0 }

/-- `H·P·H^T + R` -/
def innovationCov (H : Matrix (Fin 2) (Fin 4) K) (P : Matrix (Fin 4) (Fin 4) K) (R : Fin 2 → K) :
    Matrix (Fin 2) (Fin 2) K :=
  let hp := loopMul H P
  .of fun i j => loopMulT hp H i j + if i = j then R i else 0

/-- The loop of the first measurement that sets its sum to zero before every term. -/
def firstHp (H : Matrix (Fin 2) (Fin 4) K) (P : Matrix (Fin 4) (Fin 4) K) :
    Matrix (Fin 2) (Fin 4) K :=
  .of fun i j => (List.finRange 4).foldl (fun _ k => 0 + H i k * P k j) 0

/-- The innovation covariance of the first measurement. -/
def firstInnovationCov (H : Matrix (Fin 2) (Fin 4) K) (P : Matrix (Fin 4) (Fin 4) K)
    (R : Fin 2 → K) : Matrix (Fin 2) (Fin 2) K :=
  let hp := firstHp H P
  .of fun i j => addUp (if i = j then R i else 0) fun k => hp i k * H j k

/-- `joseph_update` -/
def josephUpdate (P : Matrix (Fin 4) (Fin 4) K) (gain : Matrix (Fin 4) (Fin 2) K)
    (H : Matrix (Fin 2) (Fin 4) K) (R : Fin 2 → K) : Matrix (Fin 4) (Fin 4) K :=
  let ikh : Matrix (Fin 4) (Fin 4) K := .of fun i j =>
    (List.finRange 2).foldl (fun a k => a - gain i k * H k j) (if i = j then 1 else 0)
  let temp := loopMul ikh P
  .of fun i j => addUp (loopMulT temp ikh i j) fun k => gain i k * R k * gain j k

/-- The inverse of a two by two matrix. -/
def inverse2 (S : Matrix (Fin 2) (Fin 2) K) : Matrix (Fin 2) (Fin 2) K :=
  let det := S 0 0 * S 1 1 - S 0 1 * S 1 0
  let invDet := 1 / det
  !![S 1 1 * invDet, -S 0 1 * invDet; -S 1 0 * invDet, S 0 0 * invDet]

/-! ## What the loops compute

The two covariances of the innovation side by side: `innovationCov` is `H·P·Hᵀ + R`, while
`firstInnovationCov` comes down to the noise `R` alone, because the running sum is cleared before
every term and the column that survives is that of the velocity, which no measurement sees. -/

section Products

variable {H : Matrix (Fin 2) (Fin 4) K} {P : Matrix (Fin 4) (Fin 4) K} {R : Fin 2 → K}
  {S : Matrix (Fin 2) (Fin 2) K}

theorem predict_cov (kf : KalmanFilter2D K) (dt ax ay : K) :
    (kf.predict dt ax ay).cov = motion dt * kf.cov * (motion dt)ᵀ + diagonal kQdiag := by
  ext i j
  simp only [predict, loopMul_eq, loopMulT_eq, of_apply, Matrix.add_apply, diagonal_apply]

theorem innovationCov_eq : innovationCov H P R = JosephForm.innovation P H (diagonal R) := by
  ext i j
  simp only [innovationCov, loopMul_eq, loopMulT_eq, of_apply, JosephForm.innovation,
    Matrix.add_apply, diagonal_apply]

/-- Only the last term is left. -/
theorem firstHp_apply (i : Fin 2) (j : Fin 4) : firstHp H P i j = H i 3 * P 3 j := by
  simp [firstHp, List.finRange_succ]

/-- The first measurement takes the noise for the covariance of the innovation. -/
theorem firstInnovationCov_eq (hH : ∀ i, H i 3 = 0) : firstInnovationCov H P R = diagonal R := by
  ext i j
  simp only [firstInnovationCov, of_apply, addUp_eq, firstHp_apply, hH, zero_mul,
    Finset.sum_const_zero, add_zero, diagonal_apply]

theorem josephUpdate_eq (gain : Matrix (Fin 4) (Fin 2) K) :
    josephUpdate P gain H R = JosephForm.joseph P gain H (diagonal R) := by
  have hikh : (.of fun i j => (List.finRange 2).foldl (fun a k => a - gain i k * H k j)
      (if i = j then 1 else 0) : Matrix (Fin 4) (Fin 4) K) = 1 - gain * H := by
    ext i j
    simp [List.finRange_succ, mul_apply, one_apply, sub_sub]
  ext i j
  simp only [josephUpdate, hikh, loopMul_eq, loopMulT_eq, of_apply, addUp_eq, JosephForm.joseph,
    Matrix.add_apply, mul_apply (M := gain * diagonal R), mul_diagonal, transpose_apply]

/-- The gain for a covariance of the innovation. -/
def gain (P : Matrix (Fin 4) (Fin 4) K) (H : Matrix (Fin 2) (Fin 4) K)
    (S : Matrix (Fin 2) (Fin 2) K) : Matrix (Fin 4) (Fin 2) K := P * Hᵀ * inverse2 S

/-- The closed form is an inverse when the determinant is not zero, -/
theorem inverse2_mul (hdet : S 0 0 * S 1 1 - S 0 1 * S 1 0 ≠ 0) : inverse2 S * S = 1 := by
  ext i j
  fin_cases i <;> fin_cases j <;> simp [inverse2, mul_apply, Fin.sum_univ_two] <;> grind

/-- and the gain solves the equation that it is named for. -/
theorem gain_mul (hdet : S 0 0 * S 1 1 - S 0 1 * S 1 0 ≠ 0) : gain P H S * S = P * Hᵀ := by
  rw [gain, Matrix.mul_assoc, inverse2_mul hdet, Matrix.mul_one]

end Products

/-! ## Updates

The cases of `update`, one equation for each: refused before anything was computed, the first
measurement, and every later one. The proofs about runs use these and do not unfold it. -/

variable [LinearOrder K] [CMath K]

/-- `maha_check` -/
def mahaCheck (y : Fin 2 → K) (S : Matrix (Fin 2) (Fin 2) K) : Bool :=
  decide (∀ i, ¬(CMath.sqrt (S i i) > 0 ∧ |y i| > kMahaThreshold * CMath.sqrt (S i i)))

/-- The second half of `update`: the gate, the gain, and the new state. -/
def correct (model : MeasureModel) (kf : KalmanFilter2D K) (z R : Fin 2 → K)
    (S : Matrix (Fin 2) (Fin 2) K) : Bool × KalmanFilter2D K :=
  let zPred := model.h kf.state
  let y i := z i - zPred i
  let H := model.jacobian kf.state
  if mahaCheck y S = false then (false, kf)
  else
    let pht := loopMulT kf.cov H
    let det := S 0 0 * S 1 1 - S 0 1 * S 1 0
    if |det| < 1e-12 then (false, kf)
    else
      let gain := loopMul pht (inverse2 S)
      (true,
        { kf with
          state := fun i => addUp (kf.state i) fun j => gain i j * y j
          cov := josephUpdate kf.cov gain H R })

/-- `update`: whether the measurement was accepted, and the filter. -/
def update (model : MeasureModel) (kf : KalmanFilter2D K) (z R : Fin 2 → K) :
    Bool × KalmanFilter2D K :=
  if kf.initialized = true then
    kf.correct model z R (innovationCov (model.jacobian kf.state) kf.cov R)
  else
    let (ok, state) := model.initFromMeasurement z kf.state
    let kf := { kf with state := state }
    if ok = false then (false, kf)
    else
      let kf := { kf with initialized := true }
      kf.correct model z R (firstInnovationCov (model.jacobian kf.state) kf.cov R)

/-- No measurement sees the velocity. -/
theorem jacobian_apply_three (model : MeasureModel) (state : Fin 4 → K) (i : Fin 2) :
    model.jacobian state i 3 = 0 := by
  cases model with
  | linear => fin_cases i <;> rfl
  | rangeBearing =>
    simp only [MeasureModel.jacobian]
    split_ifs
    · fin_cases i <;> rfl
    · rfl

section Correct

variable {model : MeasureModel} {kf : KalmanFilter2D K} {z R : Fin 2 → K}
  {S : Matrix (Fin 2) (Fin 2) K}

/-- The gate and the test for a singular covariance. -/
theorem correct_accepts_iff : (kf.correct model z R S).1 = true ↔
    mahaCheck (fun i => z i - model.h kf.state i) S = true ∧
      1e-12 ≤ |S 0 0 * S 1 1 - S 0 1 * S 1 0| := by
  rw [← not_lt]
  simp only [correct]
  split_ifs with hmaha hdet
  · exact iff_of_false (by simp) fun h => by simp [hmaha] at h
  · exact iff_of_false (by simp) fun h => h.2 hdet
  · exact iff_of_true rfl ⟨by simpa using hmaha, hdet⟩

/-- A measurement that is not accepted changes nothing any more. -/
theorem correct_of_false (h : (kf.correct model z R S).1 = false) :
    (kf.correct model z R S).2 = kf := by
  simp only [correct] at h ⊢
  split_ifs at h ⊢
  · rfl
  · rfl

/-- An accepted measurement moves the state by the gain and brings the covariance to the Joseph
form. -/
theorem correct_of_true (h : (kf.correct model z R S).1 = true) :
    (kf.correct model z R S).2.state =
        kf.state + gain kf.cov (model.jacobian kf.state) S *ᵥ (z - model.h kf.state) ∧
      (kf.correct model z R S).2.cov = JosephForm.joseph kf.cov
        (gain kf.cov (model.jacobian kf.state) S) (model.jacobian kf.state) (diagonal R) := by
  simp only [correct] at h ⊢
  split_ifs at h ⊢
  refine ⟨?_, ?_⟩
  · funext i
    simp only [addUp_eq, loopMul_eq, loopMulT_eq]
    rfl
  · simp only [josephUpdate_eq, loopMul_eq, loopMulT_eq]
    rfl

/-- The second half of an update leaves the flag alone. -/
theorem correct_initialized :
    (kf.correct model z R S).2.initialized = kf.initialized := by
  simp only [correct]
  split_ifs <;> rfl

/-- After the first measurement there is one way only to update. -/
theorem update_of_initialized (h : kf.initialized = true) :
    kf.update model z R = kf.correct model z R
      (JosephForm.innovation kf.cov (model.jacobian kf.state) (diagonal R)) := by
  rw [update, if_pos h, innovationCov_eq]

/-- What is left of the filter when the first measurement cannot be used. -/
theorem update_of_refused (h : kf.initialized = false)
    (hinit : (model.initFromMeasurement z kf.state).1 = false) :
    kf.update model z R =
      (false, { kf with state := (model.initFromMeasurement z kf.state).2 }) := by
  rw [update, if_neg (by simp [h])]
  simp only [hinit, if_true]

/-- **The first measurement** sets the position and is then corrected with the noise for the
covariance of the innovation. -/
theorem update_of_first (h : kf.initialized = false)
    (hinit : (model.initFromMeasurement z kf.state).1 = true) :
    kf.update model z R =
      correct model ⟨(model.initFromMeasurement z kf.state).2, kf.cov, true⟩ z R (diagonal R) := by
  rw [update, if_neg (by simp [h])]
  simp only [hinit, Bool.true_eq_false, if_false]
  rw [firstInnovationCov_eq (jacobian_apply_three model _)]

/-- Any position can be used. -/
theorem update_linear_initialized : (kf.update .linear z R).2.initialized = true := by
  cases hinit : kf.initialized with
  | true => rw [update_of_initialized hinit, correct_initialized, hinit]
  | false => rw [update_of_first hinit rfl, correct_initialized]

/-- A first position is never refused, unless its noise is as good as none. -/
theorem update_accepts_first [IsStrictOrderedRing K] (h : kf.initialized = false)
    (hR : 1e-12 ≤ |R 0 * R 1|) : (kf.update .linear z R).1 = true := by
  rw [update_of_first h rfl]
  refine correct_accepts_iff.mpr ⟨decide_eq_true fun i => ?_, by simpa using hR⟩
  -- the innovation is zero
  have hzero : z i - MeasureModel.linear.h ![z 0, z 1, kf.state 2, kf.state 3] i = 0 := by
    fin_cases i <;> exact sub_self _
  rintro ⟨hsig, hfar⟩
  change kMahaThreshold * CMath.sqrt (diagonal R i i) <
    |z i - MeasureModel.linear.h ![z 0, z 1, kf.state 2, kf.state 3] i| at hfar
  rw [hzero, abs_zero, kMahaThreshold] at hfar
  exact absurd hfar (mul_pos three_pos hsig).not_gt

end Correct

end KalmanFilter2D

end AmrFramework.Perception
