import AmrFramework.PurePursuit

/-!
# The velocity smoother

`VelocitySmoother` limits the change of the published twist from one control
tick to the next: braking may be harder than accelerating, but neither is
immediate.

The limit is chosen by a comparison of signed speeds: rising is accelerating, falling is braking.
For a robot that only drives forward that is what the words mean. What it does in reverse is the
subject of `SmootherLimits`.
-/

namespace AmrFramework.Execution

universe u

variable {K : Type u} [Field K]

/-- `VelocitySmoother::Params`. -/
structure SmootherParams (K : Type u) [Field K] : Type u where
  maxAccel : K := 0.5
  maxDecel : K := 0.8
  maxAngularAccel : K := 1.0

variable [LinearOrder K]

/-- `VelocitySmoother::smooth`. -/
def SmootherParams.smooth (p : SmootherParams K) (desired last : Twist2D K) (dt : K) : Twist2D K :=
  let maxLin := if last.linear < desired.linear then p.maxAccel * dt else p.maxDecel * dt
  let maxAng := p.maxAngularAccel * dt
  { linear := last.linear + clamp (desired.linear - last.linear) (-maxLin) maxLin
    angular := last.angular + clamp (desired.angular - last.angular) (-maxAng) maxAng }

variable [IsStrictOrderedRing K]

/-- A speed that rises stays at or below the desired one; a speed that falls does
so by no more than the deceleration allows. -/
theorem SmootherParams.smooth_linear {p : SmootherParams K} {desired last : Twist2D K} {dt : K}
    (haccel : 0 ≤ p.maxAccel * dt) (hdecel : 0 ≤ p.maxDecel * dt) :
    (p.smooth desired last dt).linear =
      if last.linear < desired.linear then min desired.linear (last.linear + p.maxAccel * dt)
      else max desired.linear (last.linear - p.maxDecel * dt) := by
  simp only [SmootherParams.smooth]
  split_ifs with hrise
  · obtain hle | hle := le_total desired.linear (last.linear + p.maxAccel * dt)
    · rw [min_eq_left hle, clamp_eq (by linarith) (by linarith)]
      ring
    · rw [min_eq_right hle]
      obtain heq | hlt := hle.eq_or_lt
      · rw [clamp_eq (by linarith) (by linarith)]
        linarith
      · rw [clamp, if_neg (by linarith), if_pos (by linarith)]
  · obtain hle | hle := le_total (last.linear - p.maxDecel * dt) desired.linear
    · rw [max_eq_left hle, clamp_eq (by linarith) (by linarith)]
      ring
    · rw [max_eq_right hle]
      obtain heq | hlt := hle.eq_or_lt
      · rw [clamp_eq (by linarith) (by linarith)]
        linarith
      · rw [clamp, if_pos (by linarith)]
        ring

/-- **When the smoothed speed respects a bound** on the desired one: when braking
from the last speed gets below it. -/
theorem SmootherParams.smooth_le_iff (p : SmootherParams K) {desired : Twist2D K}
    (last : Twist2D K) (dt : K) {v : K} (haccel : 0 ≤ p.maxAccel * dt)
    (hdecel : 0 ≤ p.maxDecel * dt) (hle : desired.linear ≤ v) :
    (p.smooth desired last dt).linear ≤ v ↔ last.linear - p.maxDecel * dt ≤ v := by
  rw [p.smooth_linear haccel hdecel]
  split_ifs with hrise
  · refine iff_of_true ((min_le_left _ _).trans hle) ?_
    linarith
  · rw [max_le_iff]
    exact and_iff_right hle

/-- The smoothed speed of nonnegative speeds is nonnegative. -/
theorem SmootherParams.smooth_nonneg {p : SmootherParams K} {desired last : Twist2D K} {dt : K}
    (haccel : 0 ≤ p.maxAccel * dt) (hdecel : 0 ≤ p.maxDecel * dt) (hdesired : 0 ≤ desired.linear)
    (hlast : 0 ≤ last.linear) : 0 ≤ (p.smooth desired last dt).linear := by
  rw [p.smooth_linear haccel hdecel]
  split_ifs
  · exact le_min hdesired (add_nonneg hlast haccel)
  · exact le_max_of_le_left hdesired

end AmrFramework.Execution
