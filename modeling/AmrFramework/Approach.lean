import Mathlib.Algebra.Order.BigOperators.Group.List
import Mathlib.Algebra.Order.Field.Basic
import Mathlib.Algebra.Order.Group.MinMax
import Mathlib.Order.Interval.Set.UnorderedInterval
import Mathlib.Tactic.Linarith
import Mathlib.Tactic.Ring

/-!
# Approaching a value

A value that moves towards another one, by so much at most upwards and by so much at most
downwards. Moves towards the same value add up (`approach_approach`), and so do those of a
list (`foldl_approach`). What a move does to the absolute value depends on the side of
zero it is made on (`abs_approach_le_iff`, `le_abs_approach_iff`).

What a controller does on every tick to a speed, or to anything else that it may change by so
much and no more. `up` and `down` need not be the same: a smoother that brakes harder than it
accelerates has two of them.
-/

namespace Approach

universe u v

variable {K : Type u} [Field K] [LinearOrder K] [IsStrictOrderedRing K]

/-- `v`, moved towards `d`. -/
def approach (up down v d : K) : K := if v < d then min d (v + up) else max d (v - down)

variable {up down v d : K}

/-- An upward move. -/
theorem approach_of_lt (h : v < d) : approach up down v d = v + min (d - v) up := by
  rw [approach, if_pos h, ← min_add_add_left, add_sub_cancel]

/-- A downward move. -/
theorem approach_of_le (h : d ≤ v) : approach up down v d = v - min (v - d) down := by
  rw [approach, if_neg (not_lt.mpr h), ← max_sub_sub_left, sub_sub_cancel]

/-- What has arrived stays, -/
theorem approach_self (hdown : 0 ≤ down) : approach up down d d = d := by
  simp [approach_of_le, hdown]

/-- and what may not move does. -/
@[simp] theorem approach_zero : approach 0 0 v d = v := by
  obtain h | h := lt_or_ge v d
  · simp [approach_of_lt h, h.le]
  · simp [approach_of_le h, h]

/-- The value does not go past the other one. -/
theorem approach_mem (hup : 0 ≤ up) (hdown : 0 ≤ down) : approach up down v d ∈ Set.uIcc v d := by
  obtain h | h := lt_or_ge v d
  · rw [approach, if_pos h, Set.uIcc_of_le h.le]
    exact ⟨le_min h.le (le_add_of_nonneg_right hup), min_le_left _ _⟩
  · rw [approach, if_neg (not_lt.mpr h), Set.uIcc_of_ge h]
    exact ⟨le_max_left _ _, max_le h (sub_le_self v hdown)⟩

/-- When the value gets there. -/
theorem approach_eq_iff (hup : 0 ≤ up) (hdown : 0 ≤ down) :
    approach up down v d = d ↔ d - v ≤ up ∧ v - d ≤ down := by
  obtain h | h := lt_or_ge v d
  · rw [approach, if_pos h, min_eq_left_iff]
    constructor
    · intro hle
      exact ⟨by linarith, by linarith⟩
    · rintro ⟨hle, -⟩
      linarith
  · rw [approach, if_neg (not_lt.mpr h), max_eq_left_iff]
    constructor
    · intro hle
      exact ⟨by linarith, by linarith⟩
    · rintro ⟨-, hle⟩
      linarith

/-- With one limit for both directions the move is at most that long. -/
theorem abs_approach_sub_le {s : K} (hs : 0 ≤ s) : |approach s s v d - v| ≤ s := by
  obtain h | h := lt_or_ge v d
  · rw [approach_of_lt h, add_sub_cancel_left,
      abs_of_nonneg (le_min (sub_nonneg.mpr h.le) hs)]
    exact min_le_right _ _
  · rw [approach_of_le h, sub_sub_cancel_left, abs_neg,
      abs_of_nonneg (le_min (sub_nonneg.mpr h) hs)]
    exact min_le_right _ _

/-! ## Several moves

Short of the target the moves add up because the same limit applies to each of them; at the
target none of them does anything. The side on which the value is cannot change on the way. -/

/-- Two moves towards the same value are one, over the sum of what each may do. -/
theorem approach_approach {up' down' : K} (hup' : 0 ≤ up') (hdown' : 0 ≤ down') :
    approach up' down' (approach up down v d) d = approach (up + up') (down + down') v d := by
  obtain h | h := lt_or_ge v d
  · obtain hthere | hshort := le_or_gt d (v + up)
    · -- the first move already gets there
      have hfirst : approach up down v d = d := by rw [approach, if_pos h, min_eq_left hthere]
      rw [hfirst, approach_self hdown', approach, if_pos h, min_eq_left (by linarith)]
    · have hfirst : approach up down v d = v + up := by
        rw [approach, if_pos h, min_eq_right hshort.le]
      rw [hfirst, approach, if_pos hshort, approach, if_pos h, add_assoc]
  · obtain hthere | hshort := le_or_gt (v - down) d
    · have hfirst : approach up down v d = d := by
        rw [approach, if_neg (not_lt.mpr h), max_eq_left hthere]
      rw [hfirst, approach_self hdown', approach, if_neg (not_lt.mpr h),
        max_eq_left (by linarith)]
    · have hfirst : approach up down v d = v - down := by
        rw [approach, if_neg (not_lt.mpr h), max_eq_right hshort.le]
      rw [hfirst, approach, if_neg (not_lt.mpr hshort.le), approach, if_neg (not_lt.mpr h),
        sub_sub]

/-- So are all moves of a list of durations, for whatever a state holds that makes them. -/
theorem foldl_approach {σ : Type v} {f : σ → K} {step : σ → K → σ} (hup : 0 ≤ up) (hdown : 0 ≤ down)
    (hstep : ∀ s dt, 0 ≤ dt → f (step s dt) = approach (up * dt) (down * dt) (f s) d) {dts : List K}
    (hdts : ∀ dt ∈ dts, 0 ≤ dt) (s : σ) :
    f (dts.foldl step s) = approach (up * dts.sum) (down * dts.sum) (f s) d := by
  induction dts generalizing s with
  | nil => simp
  | cons dt dts ih =>
    obtain ⟨hdt, hrest⟩ := List.forall_mem_cons.mp hdts
    have hsum := List.sum_nonneg hrest
    rw [List.foldl_cons, ih hrest, hstep s dt hdt,
      approach_approach (mul_nonneg hup hsum) (mul_nonneg hdown hsum), List.sum_cons, mul_add,
      mul_add]

/-! ## The absolute value

The limits are about the value, what is asked of them is often about its size. On the far side of
zero a rising value gets smaller, so there the two limits have changed places. -/

/-- An upward move grows the absolute value by no more than it may; a downward one does so on
the near side of zero, too, but not beyond. -/
theorem abs_approach_le_iff (hup : 0 ≤ up) (hdown : 0 ≤ down) :
    |approach up down v d| ≤ |v| + up ↔ (d ≤ v → min (v - d) down ≤ up + 2 * max v 0) := by
  obtain h | h := lt_or_ge v d
  · refine iff_of_true ?_ fun hle => absurd h (not_lt.mpr hle)
    have hmove : |min (d - v) up| ≤ up := by
      rw [abs_of_nonneg (le_min (sub_nonneg.mpr h.le) hup)]
      exact min_le_right _ _
    rw [approach_of_lt h]
    exact (abs_add_le _ _).trans (add_le_add_right hmove _)
  · rw [approach_of_le h, imp_iff_right h]
    have hmove : 0 ≤ min (v - d) down := le_min (sub_nonneg.mpr h) hdown
    generalize min (v - d) down = move at hmove ⊢
    obtain hv | hv := le_total 0 v
    · -- the move may cross zero, and has the way up to it for free
      rw [abs_of_nonneg hv, max_eq_left hv, abs_le]
      constructor
      · rintro ⟨hge, -⟩
        linarith
      · intro hle
        exact ⟨by linarith, by linarith⟩
    · rw [abs_of_nonpos hv, max_eq_right hv, abs_of_nonpos (by linarith)]
      constructor
      · intro hle
        linarith
      · intro hle
        linarith

/-- A downward move lowers the absolute value by no more than it may; an upward one does so
when it is small, or goes far enough beyond zero. -/
theorem le_abs_approach_iff (hup : 0 ≤ up) (hdown : 0 ≤ down) :
    |v| - down ≤ |approach up down v d| ↔
      (v < d → min (d - v) up ≤ down ∨ 0 ≤ 2 * v + down + min (d - v) up) := by
  obtain h | h := lt_or_ge v d
  · rw [approach_of_lt h]
    have hmove : 0 ≤ min (d - v) up := le_min (sub_nonneg.mpr h.le) hup
    generalize min (d - v) up = move at hmove ⊢
    rw [imp_iff_right h]
    obtain hv | hv := le_total 0 v
    · refine iff_of_true ?_ (.inr (by linarith))
      rw [abs_of_nonneg hv, abs_of_nonneg (by linarith)]
      linarith
    · -- either side of zero may be the one where the move ends
      rw [abs_of_nonpos hv, le_abs]
      constructor
      · rintro (hpast | hshort)
        · right
          linarith
        · left
          linarith
      · rintro (hsmall | hpast)
        · right
          linarith
        · left
          linarith
  · refine iff_of_true ?_ fun hlt => absurd hlt (not_lt.mpr h)
    have hmove : |min (v - d) down| ≤ down := by
      rw [abs_of_nonneg (le_min (sub_nonneg.mpr h) hdown)]
      exact min_le_right _ _
    rw [approach_of_le h]
    have htriangle := abs_sub_abs_le_abs_sub v (v - min (v - d) down)
    rw [sub_sub_cancel] at htriangle
    linarith

end Approach
