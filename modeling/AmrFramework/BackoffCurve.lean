import AmrFramework.SupervisorNode
import Mathlib.Algebra.Order.Ring.Int
import Mathlib.Tactic.Ring

/-!
# The backoff curve

The backoff doubles with every step until it reaches its cap. The cap is tested
after each doubling and not before the first one, so it holds when the base is
within it, and a negative base is doubled away from it. `backoffCapped_iff` says
for which parameters the curve is what it is meant to be.
-/

namespace AmrFramework.Monitoring

/-- The values that `backoff_ns`'s loop computes. -/
def loopValues (p : RestartPolicy) (v : Int) : Nat → List Int
  | 0 => []
  | i + 1 => 2 * v :: if 2 * v ≥ p.backoffMaxNs then [] else loopValues p (2 * v) i

/-- The values that `v` takes in `backoff_ns`. They are listed to say that none of them leaves
the range of 64 bits. -/
def backoffValues (p : RestartPolicy) (step : Int) : List Int :=
  p.backoffBaseNs :: if step ≤ 0 then [] else loopValues p p.backoffBaseNs step.toNat

/-- An exponential backoff with a cap, in 64 bits: it never exceeds the cap, it follows the curve
`base * 2 ^ step` up to there, it does not fall, and no value on the way is too large for the
type. -/
structure BackoffCapped (p : RestartPolicy) : Prop where
  le_max : ∀ step, backoffNs p step ≤ p.backoffMaxNs
  curve : 0 < p.backoffBaseNs → ∀ step, 0 ≤ step →
    backoffNs p step = min (p.backoffBaseNs * 2 ^ step.toNat) p.backoffMaxNs
  mono : ∀ step step', step ≤ step' → backoffNs p step ≤ backoffNs p step'
  fits : ∀ step, ∀ v ∈ backoffValues p step, -2 ^ 63 ≤ v ∧ v < 2 ^ 63

variable {p : RestartPolicy} {v : Int}

/-- From within the cap the loop computes the curve. It stops early when it reaches the cap, and
every further doubling would be cut to the cap as well. -/
theorem backoffLoop_eq (hv : 0 ≤ v) (hmax : v ≤ p.backoffMaxNs) (steps : Nat) :
    backoffLoop p v steps = min (v * 2 ^ steps) p.backoffMaxNs := by
  induction steps generalizing v with
  | zero =>
    rw [backoffLoop, pow_zero, mul_one]
    split_ifs
    · omega
    · omega
  | succ steps ih =>
    have hpow : v * 2 ^ (steps + 1) = 2 * v * 2 ^ steps := by ring
    rw [backoffLoop, hpow]
    split_ifs with hcap
    · -- what is beyond the cap stays there
      have hone : (1 : Int) ≤ 2 ^ steps := one_le_pow₀ (by decide)
      have hgrow : 2 * v * 1 ≤ 2 * v * 2 ^ steps := Int.mul_le_mul_of_nonneg_left hone (by omega)
      omega
    · exact ih (by omega) (by omega)

theorem backoffNs_eq (hbase : 0 ≤ p.backoffBaseNs) (hmax : p.backoffBaseNs ≤ p.backoffMaxNs)
    (step : Int) :
    backoffNs p step = min (p.backoffBaseNs * 2 ^ step.toNat) p.backoffMaxNs := by
  rw [backoffNs]
  split_ifs with hstep
  · rw [Int.toNat_of_nonpos hstep, pow_zero, mul_one]
    omega
  · exact backoffLoop_eq hbase hmax _

/-- The loop gets no further than twice the cap. -/
theorem mem_loopValues (hv : 0 ≤ v) (hmax : v ≤ p.backoffMaxNs) {steps : Nat} {w : Int}
    (hw : w ∈ loopValues p v steps) : 0 ≤ w ∧ w ≤ 2 * p.backoffMaxNs := by
  induction steps generalizing v with
  | zero => cases hw
  | succ steps ih =>
    rw [loopValues] at hw
    rcases List.mem_cons.mp hw with rfl | hw
    · omega
    · split_ifs at hw with hcap
      · cases hw
      · exact ih (by omega) (by omega) hw

/-- Below `2 ^ 62` the curve has its cap when its base has. -/
theorem backoffCapped_of_le (hbase : 0 ≤ p.backoffBaseNs)
    (hmax : p.backoffBaseNs ≤ p.backoffMaxNs) (hfits : p.backoffMaxNs < 2 ^ 62) :
    BackoffCapped p := by
  refine ⟨?_, ?_, ?_, ?_⟩
  · intro step
    rw [backoffNs_eq hbase hmax]
    exact min_le_right _ _
  · intro _ step _
    exact backoffNs_eq hbase hmax step
  · intro step step' hle
    rw [backoffNs_eq hbase hmax, backoffNs_eq hbase hmax]
    have hpow : (2 : Int) ^ step.toNat ≤ 2 ^ step'.toNat :=
      pow_le_pow_right₀ (by decide) (Int.toNat_le_toNat hle)
    exact min_le_min_right _ (Int.mul_le_mul_of_nonneg_left hpow hbase)
  · intro step w hw
    rcases List.mem_cons.mp hw with rfl | hw
    · omega
    · split_ifs at hw with hstep
      · cases hw
      · have hbounds := mem_loopValues hbase hmax hw
        omega

/-- The first two steps of a curve with a cap show its base: step 0 returns it as it is, and step
1 would be smaller than step 0 if it were negative. -/
theorem BackoffCapped.base (h : BackoffCapped p) :
    0 ≤ p.backoffBaseNs ∧ p.backoffBaseNs ≤ p.backoffMaxNs := by
  have hcap : p.backoffBaseNs ≤ p.backoffMaxNs := h.le_max 0
  refine ⟨?_, hcap⟩
  by_contra hneg
  have hfirst : backoffNs p 1 = 2 * p.backoffBaseNs := by
    change backoffLoop p p.backoffBaseNs 1 = _
    rw [backoffLoop, if_neg (by omega), backoffLoop, if_pos (by omega)]
  have hmono : p.backoffBaseNs ≤ backoffNs p 1 := h.mono 0 1 (by decide)
  omega

/-- **The curve is capped**, whatever the two parameters in milliseconds are, exactly when the
base is not negative and within the cap. Times in milliseconds of 32 bits are below `2 ^ 62` in
nanoseconds, so that the doublings stay within 64 bits. -/
theorem backoffCapped_iff (c : ChildParams) (base max : Int32) :
    BackoffCapped
        { c with backoffBaseMs := base.toInt, backoffMaxMs := max.toInt }.decl.spec.policy
      ↔ 0 ≤ base.toInt ∧ base.toInt ≤ max.toInt := by
  have hlt := max.toInt_lt
  constructor
  · intro h
    have hbase : 0 ≤ base.toInt * 1000000 ∧ base.toInt * 1000000 ≤ max.toInt * 1000000 := h.base
    omega
  · rintro ⟨hbase, hmax⟩
    refine backoffCapped_of_le (p := ChildSpec.policy _) ?_ ?_ ?_
    · change 0 ≤ base.toInt * 1000000
      omega
    · change base.toInt * 1000000 ≤ max.toInt * 1000000
      omega
    · change max.toInt * 1000000 < 2 ^ 62
      omega

/-- A base of 2 s under a cap of 1 s is accepted, and the first backoff takes 2 s. -/
theorem backoff_exceeds_cap :
    ¬ ∀ c : ChildParams, (loadChildrenFromParams [c]).isSome = true →
      BackoffCapped c.decl.spec.policy := by
  intro h
  have hcapped := h
    { name := "base", cmd := ["/bin/base"], backoffBaseMs := 2000, backoffMaxMs := 1000 }
    (by decide)
  exact absurd (hcapped.le_max 0) (by decide)

end AmrFramework.Monitoring
