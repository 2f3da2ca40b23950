import Mathlib.Algebra.Order.Floor.Ring
import Mathlib.Analysis.SpecialFunctions.Complex.Arg

/-!
# Exact arithmetic

The control and the perception code compute with `float` and `double`. Here their numbers are
elements of an ordered field: `+`, `*` and `/` are exact, and a literal is the decimal number it
is written as. What `<cmath>` computes is a class, so that every definition below runs on any
such field; over `ℝ` it is what the library approximates.

So a result is about the code up to rounding. Where a comparison would come out the other way by
the last digit of a `float`, the one with the exact numbers is taken: `0.55F / 0.05F` is `11`
here, and a wall that is exactly on the border of a cell is on it. Overflow and the special
values are not part of this picture either. Where they decide something, the numbers are those of
`Ieee`.

Only a measured range can be infinite or not a number. It is an `Option` then, and `none` is "no
finite value", which is all the code asks of it.
-/

namespace AmrFramework

universe u

/-! What the literals of the definitions rest on, named once for each. -/

scoped instance atLeastTwo_two : Nat.AtLeastTwo 2 := ⟨le_rfl⟩

scoped instance atLeastTwo_three : Nat.AtLeastTwo 3 := ⟨by decide⟩

scoped instance atLeastTwo_four : Nat.AtLeastTwo 4 := ⟨by decide⟩

scoped instance atLeastTwo_ten : Nat.AtLeastTwo 10 := ⟨by decide⟩

/-- the costs below `inscribed` -/
scoped instance atLeastTwo_inscribed : Nat.AtLeastTwo 253 := ⟨by decide⟩

/-- the state of the filter has four entries -/
scoped instance neZero_four : NeZero 4 := ⟨by decide⟩

/-- What `<cmath>` computes, over any numbers. The code is executable where the numbers are, and
what is proved about angles and roots is proved over the reals, where the functions are the exact
ones. -/
class CMath (K : Type u) where
  sqrt : K → K
  sin : K → K
  cos : K → K
  /-- the arguments are `y` and `x` -/
  atan2 : K → K → K
  /-- `M_PI` -/
  pi : K

/-- The functions that the library approximates. -/
noncomputable instance : CMath ℝ where
  sqrt := Real.sqrt
  sin := Real.sin
  cos := Real.cos
  atan2 y x := Complex.arg ⟨x, y⟩
  pi := Real.pi

/-- Over the reals each function is the one it is named for. -/
@[simp] theorem CMath.sqrt_real (x : ℝ) : CMath.sqrt x = Real.sqrt x := rfl

@[simp] theorem CMath.sin_real (x : ℝ) : CMath.sin x = Real.sin x := rfl

@[simp] theorem CMath.cos_real (x : ℝ) : CMath.cos x = Real.cos x := rfl

@[simp] theorem CMath.atan2_real (y x : ℝ) : CMath.atan2 y x = Complex.arg ⟨x, y⟩ := rfl

@[simp] theorem CMath.pi_real : (CMath.pi : ℝ) = Real.pi := rfl

variable {K : Type u}

/-- `std::atan2(std::sin(a), std::cos(a))`: the angle in `[-π, π]`. -/
def wrap [CMath K] (a : K) : K := CMath.atan2 (CMath.sin a) (CMath.cos a)

/-- `std::numeric_limits<float>::max()`. -/
def floatMax [Field K] : K := 340282346638528859811704183484516925440

section Order

variable [LinearOrder K]

/-- The conversion of a floating-point number to `int`. -/
def truncate [Ring K] [FloorRing K] (x : K) : Int := if 0 ≤ x then ⌊x⌋ else ⌈x⌉

/-- `std::clamp`. -/
def clamp (v lo hi : K) : K := if v < lo then lo else if hi < v then hi else v

theorem le_clamp {v lo hi : K} (h : lo ≤ hi) : lo ≤ clamp v lo hi := by
  simp only [clamp]
  split_ifs with hlo hhi
  · exact le_rfl
  · exact h
  · exact not_lt.mp hlo

theorem clamp_le {v lo hi : K} (h : lo ≤ hi) : clamp v lo hi ≤ hi := by
  simp only [clamp]
  split_ifs with hlo hhi
  · exact h
  · exact le_rfl
  · exact not_lt.mp hhi

theorem clamp_mono {v w lo hi : K} (h : v ≤ w) (hlo : lo ≤ hi) : clamp v lo hi ≤ clamp w lo hi := by
  by_cases hv : v < lo
  · rw [show clamp v lo hi = lo from if_pos hv]
    exact le_clamp hlo
  · have hwlo : ¬ w < lo := fun hlt => hv (h.trans_lt hlt)
    by_cases hw : hi < w
    · rw [show clamp w lo hi = hi from (if_neg hwlo).trans (if_pos hw)]
      exact clamp_le hlo
    · have hvhi : ¬ hi < v := fun hlt => hw (hlt.trans_le h)
      rw [show clamp v lo hi = v from (if_neg hv).trans (if_neg hvhi),
        show clamp w lo hi = w from (if_neg hwlo).trans (if_neg hw)]
      exact h

/-- Inside the bounds nothing is clamped. -/
theorem clamp_eq {v lo hi : K} (hlo : lo ≤ v) (hhi : v ≤ hi) : clamp v lo hi = v := by
  rw [clamp, if_neg (not_lt.mpr hlo), if_neg (not_lt.mpr hhi)]

/-- Two values are clamped to the same one when they are equal, or beyond the same
bound. -/
theorem clamp_eq_clamp_iff {v w lo hi : K} (h : lo < hi) :
    clamp v lo hi = clamp w lo hi ↔ v = w ∨ (hi ≤ v ∧ hi ≤ w) ∨ (v ≤ lo ∧ w ≤ lo) := by
  simp only [clamp]
  constructor
  · intro heq
    split_ifs at heq <;> grind
  · rintro (rfl | ⟨hv, hw⟩ | ⟨hv, hw⟩)
    · rfl
    · split_ifs <;> grind
    · split_ifs <;> grind

end Order

/-- An angle in `(-π, π]` is wrapped already. -/
theorem wrap_of_mem {a : ℝ} (h : a ∈ Set.Ioc (-Real.pi) Real.pi) : wrap a = a := by
  have harg := Complex.arg_cos_add_sin_mul_I h
  rw [← Complex.ofReal_cos, ← Complex.ofReal_sin, ← Complex.mk_eq_add_mul_I] at harg
  exact harg

end AmrFramework
