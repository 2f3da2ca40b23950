import Mathlib.Algebra.Order.Field.Basic

/-!
# Floating-point numbers with their special values

An IEEE 754 number over an ordered field: not a number, an infinity, or a finite
value. Finite values are exact and zero has no sign; what is kept is how the
special values propagate and compare: a comparison with `nan` is false whichever
way it is written, so `¬ a ≤ b` and `b < a` are different conditions.

The arithmetic here has no largest finite number. A program's format has, and `overflow` puts
it on a result: from the limit of the format on, a number is infinite.

Nothing here knows which program computes with them.
-/

universe u

/-- A floating-point number: not a number, infinite, or finite. Finite numbers are exact; where
the range of a format matters, a result is put through `overflow`. -/
inductive Ieee (K : Type u) : Type u
  | nan
  /-- an infinity; `true` is the negative one -/
  | inf (neg : Bool)
  | fin (x : K)
  deriving DecidableEq

namespace Ieee

variable {K : Type u}

/-- `std::isfinite`. -/
def IsFinite : Ieee K → Prop
  | .fin _ => True
  | .nan => False
  | .inf _ => False

instance : DecidablePred (IsFinite (K := K))
  | .fin _ => .isTrue trivial
  | .nan => .isFalse id
  | .inf _ => .isFalse id

@[simp] theorem isFinite_fin (x : K) : (fin x).IsFinite := trivial

@[simp] theorem not_isFinite_nan : ¬ (nan : Ieee K).IsFinite := id

@[simp] theorem not_isFinite_inf (s : Bool) : ¬ (inf s : Ieee K).IsFinite := id

/-- A finite number is one that is a value. The form in which finiteness is used: the number is
replaced by its value and the tables apply. -/
theorem isFinite_iff {a : Ieee K} : a.IsFinite ↔ ∃ x, a = fin x := by
  cases a with
  | nan => exact ⟨False.elim, nofun⟩
  | inf s => exact ⟨False.elim, nofun⟩
  | fin x => exact ⟨fun _ => ⟨x, rfl⟩, fun _ => trivial⟩

/-! ## Comparisons

Both orders are the ones of IEEE 754: total on numbers that are not `nan`, with the infinities at
the ends, and false as soon as one side is `nan`. -/

section Order

variable [LinearOrder K]

/-- `a < b`. -/
protected def Lt : Ieee K → Ieee K → Prop
  | .fin x, .fin y => x < y
  | .fin _, .inf t => t = false
  | .inf s, .fin _ => s = true
  | .inf s, .inf t => s = true ∧ t = false
  | .nan, _ => False
  | _, .nan => False

/-- `a <= b`. -/
protected def Le : Ieee K → Ieee K → Prop
  | .fin x, .fin y => x ≤ y
  | .fin _, .inf t => t = false
  | .inf s, .fin _ => s = true
  | .inf s, .inf t => s = true ∨ t = false
  | .nan, _ => False
  | _, .nan => False

instance : LT (Ieee K) := ⟨Ieee.Lt⟩

instance : LE (Ieee K) := ⟨Ieee.Le⟩

@[simp] theorem fin_lt_fin {x y : K} : fin x < fin y ↔ x < y := Iff.rfl

@[simp] theorem fin_lt_inf {x : K} {t : Bool} : fin x < inf t ↔ t = false := Iff.rfl

@[simp] theorem inf_lt_fin {s : Bool} {y : K} : inf s < fin y ↔ s = true := Iff.rfl

@[simp] theorem inf_lt_inf {s t : Bool} : (inf s : Ieee K) < inf t ↔ s = true ∧ t = false := Iff.rfl

@[simp] theorem not_nan_lt (a : Ieee K) : ¬ nan < a := by
  cases a <;> exact id

@[simp] theorem not_lt_nan (a : Ieee K) : ¬ a < nan := by
  cases a <;> exact id

@[simp] theorem fin_le_fin {x y : K} : fin x ≤ fin y ↔ x ≤ y := Iff.rfl

@[simp] theorem fin_le_inf {x : K} {t : Bool} : fin x ≤ inf t ↔ t = false := Iff.rfl

@[simp] theorem inf_le_fin {s : Bool} {y : K} : inf s ≤ fin y ↔ s = true := Iff.rfl

@[simp] theorem inf_le_inf {s t : Bool} : (inf s : Ieee K) ≤ inf t ↔ s = true ∨ t = false := Iff.rfl

@[simp] theorem not_nan_le (a : Ieee K) : ¬ nan ≤ a := by
  cases a <;> exact id

@[simp] theorem not_le_nan (a : Ieee K) : ¬ a ≤ nan := by
  cases a <;> exact id

instance decidableLt : (a b : Ieee K) → Decidable (a < b)
  | .fin x, .fin y => inferInstanceAs (Decidable (x < y))
  | .fin _, .inf t => inferInstanceAs (Decidable (t = false))
  | .inf s, .fin _ => inferInstanceAs (Decidable (s = true))
  | .inf s, .inf t => inferInstanceAs (Decidable (s = true ∧ t = false))
  | .nan, b => .isFalse (not_nan_lt b)
  | .fin x, .nan => .isFalse (not_lt_nan (fin x))
  | .inf s, .nan => .isFalse (not_lt_nan (inf s))

instance decidableLe : (a b : Ieee K) → Decidable (a ≤ b)
  | .fin x, .fin y => inferInstanceAs (Decidable (x ≤ y))
  | .fin _, .inf t => inferInstanceAs (Decidable (t = false))
  | .inf s, .fin _ => inferInstanceAs (Decidable (s = true))
  | .inf s, .inf t => inferInstanceAs (Decidable (s = true ∨ t = false))
  | .nan, b => .isFalse (not_nan_le b)
  | .fin x, .nan => .isFalse (not_le_nan (fin x))
  | .inf s, .nan => .isFalse (not_le_nan (inf s))

/-- `std::min`: the first argument unless the second is less. It is not symmetric where one of
them is `nan`. -/
def min (a b : Ieee K) : Ieee K := if b < a then b else a

/-- `std::clamp`, with its two comparisons in the order of the standard. -/
def clamp (v lo hi : Ieee K) : Ieee K := if v < lo then lo else if hi < v then hi else v

end Order

/-! ## Arithmetic

Finite numbers are computed with exactly. What the tables add is the rest: `inf - inf`, `0 *
inf`, `inf / inf` and `0 / 0` are `nan`, and a `nan` stays one. -/

section Arithmetic

variable [Field K]

instance : Neg (Ieee K) where
  neg
    | .nan => .nan
    | .inf s => .inf !s
    | .fin x => .fin (-x)

instance : Add (Ieee K) where
  add
    | .fin x, .fin y => .fin (x + y)
    | .fin _, .inf t => .inf t
    | .inf s, .fin _ => .inf s
    | .inf s, .inf t => if s = t then .inf s else .nan
    | .nan, _ => .nan
    | _, .nan => .nan

instance : Sub (Ieee K) := ⟨fun a b => a + -b⟩

@[simp] theorem neg_fin (x : K) : -fin x = fin (-x) := rfl

@[simp] theorem neg_inf (s : Bool) : -(inf s : Ieee K) = inf !s := rfl

@[simp] theorem neg_nan : -(nan : Ieee K) = nan := rfl

@[simp] theorem fin_add_fin (x y : K) : fin x + fin y = fin (x + y) := rfl

@[simp] theorem fin_add_inf (x : K) (t : Bool) : fin x + inf t = inf t := rfl

@[simp] theorem add_nan (a : Ieee K) : a + nan = nan := by
  cases a <;> rfl

@[simp] theorem fin_sub_fin (x y : K) : fin x - fin y = fin (x - y) :=
  congrArg fin (sub_eq_add_neg x y).symm

@[simp] theorem sub_nan (a : Ieee K) : a - nan = nan := by
  cases a <;> rfl

@[simp] theorem nan_sub (a : Ieee K) : nan - a = nan := by
  cases a <;> rfl

@[simp] theorem fin_sub_inf (x : K) (t : Bool) : fin x - inf t = inf !t := rfl

@[simp] theorem inf_sub_fin (s : Bool) (y : K) : inf s - fin y = inf s := rfl

@[simp] theorem inf_sub_inf_not (s : Bool) : (inf s - inf !s : Ieee K) = inf s := by
  cases s <;> rfl

variable [LinearOrder K]

instance : Mul (Ieee K) where
  mul
    | .fin x, .fin y => .fin (x * y)
    | .fin x, .inf t => if x = 0 then .nan else .inf (t ^^ decide (x < 0))
    | .inf s, .fin y => if y = 0 then .nan else .inf (s ^^ decide (y < 0))
    | .inf s, .inf t => .inf (s ^^ t)
    | .nan, _ => .nan
    | _, .nan => .nan

instance : Div (Ieee K) where
  div
    | .fin x, .fin y =>
      if y = 0 then if x = 0 then .nan else .inf (decide (x < 0)) else .fin (x / y)
    | .fin _, .inf _ => .fin 0
    | .inf s, .fin y => .inf (s ^^ decide (y < 0))
    | .inf _, .inf _ => .nan
    | .nan, _ => .nan
    | _, .nan => .nan

/-- `std::fabs`. -/
def abs : Ieee K → Ieee K
  | .nan => .nan
  | .inf _ => .inf false
  | .fin x => .fin |x|

@[simp] theorem fin_mul_fin (x y : K) : fin x * fin y = fin (x * y) := rfl

/-- A product with an infinity, for a positive factor. With zero it is `nan`. -/
theorem inf_mul_fin (s : Bool) {y : K} (hy : 0 < y) : inf s * fin y = inf s := by
  change ite (y = 0) nan (inf (s ^^ decide (y < 0))) = inf s
  rw [if_neg hy.ne', decide_eq_false hy.asymm, Bool.xor_false]

@[simp] theorem inf_mul_zero (s : Bool) : inf s * fin (0 : K) = nan := if_pos rfl

@[simp] theorem nan_mul (a : Ieee K) : nan * a = nan := by
  cases a <;> rfl

@[simp] theorem mul_nan (a : Ieee K) : a * nan = nan := by
  cases a <;> rfl

theorem fin_div_fin (x : K) {y : K} (hy : y ≠ 0) : fin x / fin y = fin (x / y) := if_neg hy

@[simp] theorem fin_div_inf (x : K) (t : Bool) : fin x / inf t = fin 0 := rfl

@[simp] theorem inf_div_inf (s t : Bool) : (inf s / inf t : Ieee K) = nan := rfl

@[simp] theorem nan_div (a : Ieee K) : nan / a = nan := by
  cases a <;> rfl

@[simp] theorem div_nan (a : Ieee K) : a / nan = nan := by
  cases a <;> rfl

/-- No product with an infinity is finite. -/
theorem not_isFinite_inf_mul (s : Bool) (a : Ieee K) : ¬ (inf s * a).IsFinite := by
  cases a with
  | nan => exact id
  | inf t => exact id
  | fin y =>
    change ¬ (ite (y = 0) nan (inf (s ^^ decide (y < 0)))).IsFinite
    split <;> exact id

/-- A product is finite when both factors are, and only then. Without the limit of a format there
is no other way to lose a value. -/
theorem isFinite_mul {a b : Ieee K} : (a * b).IsFinite ↔ a.IsFinite ∧ b.IsFinite := by
  cases a with
  | nan => simp
  | inf s => exact iff_of_false (not_isFinite_inf_mul s b) fun h => h.1
  | fin x =>
    cases b with
    | nan => simp
    | inf t =>
      refine iff_of_false ?_ fun h => h.2
      change ¬ (ite (x = 0) nan (inf (t ^^ decide (x < 0)))).IsFinite
      split <;> exact id
    | fin y => simp

end Arithmetic

/-! ## Overflow

Whether a result is rounded makes no difference to where it overflows, as long as the limit is
the first number that the format rounds to infinity. -/

section Overflow

variable [Field K] [LinearOrder K] {limit x : K}

/-- A result in a format that has no finite numbers from `limit` on: a larger one becomes the
infinity of its sign. -/
def overflow (limit : K) : Ieee K → Ieee K
  | .fin x => if limit ≤ |x| then inf (decide (x < 0)) else fin x
  | .inf s => inf s
  | .nan => nan

@[simp] theorem overflow_nan : overflow limit nan = nan := rfl

@[simp] theorem overflow_inf (s : Bool) : overflow limit (inf s) = inf s := rfl

theorem overflow_of_lt (h : |x| < limit) : overflow limit (fin x) = fin x := if_neg (not_le.mpr h)

theorem overflow_of_le (h : limit ≤ |x|) : overflow limit (fin x) = inf (decide (x < 0)) := if_pos h

/-- What is left of a format: the values below its limit. -/
theorem overflow_isFinite {a : Ieee K} :
    (overflow limit a).IsFinite ↔ ∃ x, a = fin x ∧ |x| < limit := by
  cases a with
  | nan => exact iff_of_false id nofun
  | inf s => exact iff_of_false id nofun
  | fin x =>
    by_cases hx : limit ≤ |x|
    · rw [overflow_of_le hx]
      refine iff_of_false id fun ⟨y, hy, hlt⟩ => ?_
      obtain rfl := fin.inj hy
      exact not_lt.mpr hx hlt
    · rw [overflow_of_lt (not_le.mp hx)]
      exact iff_of_true trivial ⟨x, rfl, not_le.mp hx⟩

/-- Overflow keeps a bound and its opposite in order, or out of order. So a clamp to `-x` and `x`
is one with bounds in order exactly when `x` is not negative, whatever the format makes of `x`. -/
theorem overflow_neg_le_iff [IsStrictOrderedRing K] :
    overflow limit (fin (-x)) ≤ overflow limit (fin x) ↔ 0 ≤ x := by
  by_cases hx : limit ≤ |x|
  · rw [overflow_of_le hx, overflow_of_le (by rwa [abs_neg]), inf_le_inf, decide_eq_true_eq,
      decide_eq_false_iff_not, neg_lt_zero, not_lt]
    exact ⟨fun h => h.elim le_of_lt id, .inr⟩
  · have hlt := not_le.mp hx
    rw [overflow_of_lt hlt, overflow_of_lt (by rwa [abs_neg]), fin_le_fin, neg_le_self_iff]

end Overflow

/-- A `nan` passes a clamp, since it compares with neither bound. -/
@[simp] theorem clamp_nan [LinearOrder K] (lo hi : Ieee K) : clamp nan lo hi = nan := by
  simp [clamp]

/-- Clamping to finite bounds fails only on `nan`: an infinity compares with the bounds and
becomes one of them. -/
theorem isFinite_clamp [LinearOrder K] {v : Ieee K} {lo hi : K} :
    (clamp v (fin lo) (fin hi)).IsFinite ↔ v ≠ nan := by
  cases v with
  | nan => simp [clamp]
  | inf s => cases s <;> simp [clamp]
  | fin x =>
    simp only [clamp]
    split
    · simp
    · split <;> simp

end Ieee
