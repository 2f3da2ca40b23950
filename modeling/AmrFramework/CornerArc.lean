import AmrFramework.PathSmoother

/-!
# The arcs of the path smoother

The arc at a corner begins one radius before it, and is meant to end one radius behind it.
Its center lies to the left, for the sign of the turn is lost in `turn`, and a circle that
touches the incoming edge there goes through the end only when the path turns left by a
right angle, or back (`arc_inside_iff`).

Everything is said in the direction of the incoming edge and the signed angle by which the path
turns there. In these the center is one radius to the left of the begin of the arc, and the end
of the arc is one radius behind the corner in the new direction. How far the two are from each
other depends on the turn alone.
-/

namespace AmrFramework.Planning

/-- The point is in the triangle of three others, or on its sides. -/
def InTriangle (a b c s : Waypoint ℝ) : Prop :=
  ∃ u v w : ℝ, 0 ≤ u ∧ 0 ≤ v ∧ 0 ≤ w ∧ u + v + w = 1 ∧
    s.x = u * a.x + v * b.x + w * c.x ∧ s.y = u * a.y + v * b.y + w * c.y

/-- The angle by which the path turns at `cur`, to the left when it is positive. -/
noncomputable def signedTurn (prev cur next : Waypoint ℝ) : ℝ :=
  normalizeAngle (direction cur next - direction prev cur)

theorem turnAt_eq (prev cur next : Waypoint ℝ) :
    turnAt prev cur next = |signedTurn prev cur next| := rfl

/-! ## Angles

Facts about `atan2` and about angles in `[-π, π]`, as `normalizeAngle` returns them. -/

/-- A length and a direction give back the point. -/
theorem polar_direction {a b : Waypoint ℝ} {d : ℝ} (hd : 0 ≤ d)
    (h : (b.x - a.x) ^ 2 + (b.y - a.y) ^ 2 = d ^ 2) :
    d * Real.cos (direction a b) = b.x - a.x ∧ d * Real.sin (direction a b) = b.y - a.y := by
  have hnorm : ‖(⟨b.x - a.x, b.y - a.y⟩ : ℂ)‖ = d := by
    rw [Complex.norm_def, Complex.normSq_mk, ← sq, ← sq, h, Real.sqrt_sq hd]
  rw [← hnorm]
  exact ⟨Complex.norm_mul_cos_arg _, Complex.norm_mul_sin_arg _⟩

/-- An angle in `[-π, π]` with the sine of a right angle to the left is one. -/
theorem eq_pi_div_two {a : ℝ} (hlo : -Real.pi ≤ a) (hhi : a ≤ Real.pi) (hsin : Real.sin a = 1) :
    a = Real.pi / 2 := by
  have hpi := Real.pi_pos
  have hone : Real.cos (a - Real.pi / 2) = 1 := by rw [Real.cos_sub_pi_div_two, hsin]
  have hzero := (Real.cos_eq_one_iff_of_lt_of_lt (by linarith) (by linarith)).mp hone
  linarith

/-- The angles in `[-π, π]` whose sine is greater than their cosine by one: to the left, or back.
This is where the condition of the theorem comes from. -/
theorem sin_sub_cos_eq_one_iff {a : ℝ} (hlo : -Real.pi ≤ a) (hhi : a ≤ Real.pi) :
    Real.sin a - Real.cos a = 1 ↔ a = Real.pi / 2 ∨ |a| = Real.pi := by
  have hpi := Real.pi_pos
  constructor
  · intro h
    -- the square of the difference is one less twice the product
    have hprod : Real.sin a * Real.cos a = 0 := by
      nlinarith [Real.sin_sq_add_cos_sq a]
    rcases mul_eq_zero.mp hprod with hsin | hcos
    · right
      have hcos : Real.cos |a| = -1 := by
        rw [Real.cos_abs]
        linarith
      have hone : Real.cos (|a| - Real.pi) = 1 := by rw [Real.cos_sub_pi, hcos, neg_neg]
      have habs := abs_le.mpr ⟨hlo, hhi⟩
      have hnonneg := abs_nonneg a
      have hzero := (Real.cos_eq_one_iff_of_lt_of_lt (by linarith) (by linarith)).mp hone
      linarith
    · exact .inl (eq_pi_div_two hlo hhi (by linarith))
  · rintro (rfl | habs)
    · rw [Real.sin_pi_div_two, Real.cos_pi_div_two, sub_zero]
    · have hcos : Real.cos a = -1 := by rw [← Real.cos_abs, habs, Real.cos_pi]
      have hsin : Real.sin a = 0 := by nlinarith [Real.sin_sq_add_cos_sq a]
      rw [hsin, hcos]
      norm_num

/-- The turn is the difference of the two directions, up to whole turns. -/
theorem cos_signedTurn (prev cur next : Waypoint ℝ) :
    Real.cos (signedTurn prev cur next) = Real.cos (direction cur next - direction prev cur) ∧
      Real.sin (signedTurn prev cur next) =
        Real.sin (direction cur next - direction prev cur) := by
  obtain ⟨-, -, m, hm⟩ := normalizeAngle_spec (direction cur next - direction prev cur)
  rw [signedTurn, hm, mul_comm (2 * Real.pi)]
  exact ⟨Real.cos_add_int_mul_two_pi _ m, Real.sin_add_int_mul_two_pi _ m⟩

/-- The direction behind the corner. -/
theorem cos_direction_out (prev cur next : Waypoint ℝ) :
    Real.cos (direction cur next) =
        Real.cos (direction prev cur) * Real.cos (signedTurn prev cur next) -
          Real.sin (direction prev cur) * Real.sin (signedTurn prev cur next) ∧
      Real.sin (direction cur next) =
        Real.sin (direction prev cur) * Real.cos (signedTurn prev cur next) +
          Real.cos (direction prev cur) * Real.sin (signedTurn prev cur next) := by
  obtain ⟨hcos, hsin⟩ := cos_signedTurn prev cur next
  rw [hcos, hsin, ← Real.cos_add, ← Real.sin_add, add_sub_cancel]
  exact ⟨rfl, rfl⟩

namespace PathSmoother

variable (p : PathSmoother ℝ) (prev cur next : Waypoint ℝ)

/-- The sweep leads from the begin of the arc to the end angle, up to whole turns, whichever way
the code goes around. -/
theorem sweep_spec : ∃ m : ℤ, p.startAngle prev cur next + p.sweep prev cur next =
    p.endAngle prev cur next + m * (2 * Real.pi) := by
  obtain ⟨-, -, m, hm⟩ :=
    normalizeAngle_spec (p.endAngle prev cur next - p.startAngle prev cur next)
  simp only [sweep, hm, CMath.pi_real]
  split_ifs
  · exact ⟨m - 1, by push_cast; ring⟩
  · exact ⟨m + 1, by push_cast; ring⟩
  · exact ⟨m, by ring⟩

/-- The point of the circle at an angle. -/
noncomputable def onCircle (theta : ℝ) : Waypoint ℝ :=
  ⟨(p.center prev cur next).x + p.cornerRadius * Real.cos theta,
    (p.center prev cur next).y + p.cornerRadius * Real.sin theta⟩

/-- How many samples an arc gets. -/
noncomputable def arcSteps : ℕ := (p.steps (p.cornerRadius * |p.sweep prev cur next|)).toNat

/-- The samples of an arc lie at equal steps, up to the end angle. -/
theorem arcSamples_eq :
    p.arcSamples prev cur next = (List.range (p.arcSteps prev cur next)).map fun s =>
      p.onCircle prev cur next (p.startAngle prev cur next +
        p.sweep prev cur next * ((s + 1 : ℕ) / p.arcSteps prev cur next)) := by
  refine List.map_congr_left fun s _ => ?_
  simp only [p.cast_steps]
  rfl

/-- The last sample of an arc is at the end angle. -/
theorem getLast?_arcSamples :
    (p.arcSamples prev cur next).getLast? =
      some (p.onCircle prev cur next (p.endAngle prev cur next)) := by
  obtain ⟨m, hm⟩ := p.sweep_spec prev cur next
  rw [p.arcSamples_eq, arcSteps, getLast?_map_steps (p.one_le_steps _) fun t =>
    p.onCircle prev cur next (p.startAngle prev cur next + p.sweep prev cur next * t)]
  -- the sweep may add a whole turn, which the circle does not notice
  rw [mul_one, hm, onCircle, Real.cos_add_int_mul_two_pi, Real.sin_add_int_mul_two_pi]
  rfl

/-! ## When the arc ends where it is meant to

The last sample is on the circle around the center, in the direction of the end of the arc. So it
is that end when the end is one radius from the center. -/

variable {p prev cur next}

/-- The path turns left by a right angle, or back. Without a radius there is no arc. -/
def Inscribed (p : PathSmoother ℝ) (prev cur next : Waypoint ℝ) : Prop :=
  p.cornerRadius = 0 ∨ (0 < p.cornerRadius ∧
    (signedTurn prev cur next = Real.pi / 2 ∨ |signedTurn prev cur next| = Real.pi))

/-- The center is to the left of the incoming edge. -/
theorem center_of_turn (hturn : 0 < turnAt prev cur next) :
    p.center prev cur next =
      ⟨cur.x - Real.cos (direction prev cur) * p.cornerRadius +
          -Real.sin (direction prev cur) * p.cornerRadius,
        cur.y - Real.sin (direction prev cur) * p.cornerRadius +
          Real.cos (direction prev cur) * p.cornerRadius⟩ := by
  simp only [center, if_pos hturn]
  rfl

/-- How far the end of the arc is from the center: a function of the sine and the cosine of the
turn. -/
theorem dist_arcEnd (hturn : 0 < turnAt prev cur next) :
    ((p.arcEnd cur next).x - (p.center prev cur next).x) ^ 2 +
        ((p.arcEnd cur next).y - (p.center prev cur next).y) ^ 2 =
      p.cornerRadius ^ 2 * (3 - 2 * (Real.sin (signedTurn prev cur next) -
        Real.cos (signedTurn prev cur next))) := by
  obtain ⟨hcos, hsin⟩ := cos_signedTurn prev cur next
  have hin := Real.sin_sq_add_cos_sq (direction prev cur)
  have hout := Real.sin_sq_add_cos_sq (direction cur next)
  rw [hcos, hsin, Real.cos_sub, Real.sin_sub, center_of_turn hturn]
  simp only [arcEnd, CMath.cos_real, CMath.sin_real]
  linear_combination p.cornerRadius ^ 2 * (2 * hin + hout)

/-- Straight on, the center is to the right. -/
theorem dist_arcEnd_of_straight (hturn : signedTurn prev cur next = 0) :
    ((p.arcEnd cur next).x - (p.center prev cur next).x) ^ 2 +
        ((p.arcEnd cur next).y - (p.center prev cur next).y) ^ 2 = 5 * p.cornerRadius ^ 2 := by
  obtain ⟨hcos, hsin⟩ := cos_signedTurn prev cur next
  have hin := Real.sin_sq_add_cos_sq (direction prev cur)
  have hout := Real.sin_sq_add_cos_sq (direction cur next)
  have hzero : ¬ 0 < turnAt prev cur next := by
    simp [turnAt_eq, hturn]
  rw [hturn, Real.cos_zero, Real.cos_sub] at hcos
  rw [hturn, Real.sin_zero, Real.sin_sub] at hsin
  simp only [center, if_neg hzero, arcStart, arcEnd, CMath.cos_real, CMath.sin_real]
  linear_combination p.cornerRadius ^ 2 * (2 * hin + hout - 2 * hcos - 2 * hsin)

/-- The circle goes through the end of the arc in the end angle when that is one radius
from the center. -/
theorem onCircle_endAngle_iff :
    p.onCircle prev cur next (p.endAngle prev cur next) = p.arcEnd cur next ↔
      0 ≤ p.cornerRadius ∧ ((p.arcEnd cur next).x - (p.center prev cur next).x) ^ 2 +
        ((p.arcEnd cur next).y - (p.center prev cur next).y) ^ 2 = p.cornerRadius ^ 2 := by
  -- `d` is the distance from the center, in the direction of the end angle
  obtain ⟨d, hd⟩ : ∃ d, d = √(((p.arcEnd cur next).x - (p.center prev cur next).x) ^ 2 +
      ((p.arcEnd cur next).y - (p.center prev cur next).y) ^ 2) := ⟨_, rfl⟩
  have hnonneg : 0 ≤ d := hd ▸ Real.sqrt_nonneg _
  have hsq : ((p.arcEnd cur next).x - (p.center prev cur next).x) ^ 2 +
      ((p.arcEnd cur next).y - (p.center prev cur next).y) ^ 2 = d ^ 2 := by
    rw [hd, Real.sq_sqrt (by positivity)]
  obtain ⟨hx, hy⟩ := polar_direction hnonneg hsq
  rw [hsq]
  constructor
  · intro heq
    have hx' : (p.center prev cur next).x + p.cornerRadius * Real.cos (p.endAngle prev cur next) =
        (p.arcEnd cur next).x := congrArg Waypoint.x heq
    have hy' : (p.center prev cur next).y + p.cornerRadius * Real.sin (p.endAngle prev cur next) =
        (p.arcEnd cur next).y := congrArg Waypoint.y heq
    rw [← endAngle] at hx hy
    have hsame : p.cornerRadius - d = 0 := by
      linear_combination
        (-(p.cornerRadius - d)) * Real.sin_sq_add_cos_sq (p.endAngle prev cur next) +
        Real.cos (p.endAngle prev cur next) * (hx' - hx) +
        Real.sin (p.endAngle prev cur next) * (hy' - hy)
    obtain rfl := sub_eq_zero.mp hsame
    exact ⟨hnonneg, rfl⟩
  · rintro ⟨hr, heq⟩
    obtain rfl : d = p.cornerRadius := (sq_eq_sq₀ hnonneg hr).mp heq
    rw [← endAngle] at hx hy
    rw [onCircle, hx, hy, add_sub_cancel, add_sub_cancel]

/-- The last sample of the arc is its end exactly when the path turns left by a right angle, or
back. Straight on, and on a turn to the right, the center is on the wrong side. -/
theorem last_eq_arcEnd_iff :
    p.onCircle prev cur next (p.endAngle prev cur next) = p.arcEnd cur next ↔
      p.Inscribed prev cur next := by
  have hpi := Real.pi_pos
  obtain ⟨hlo, hhi, -⟩ := normalizeAngle_spec (direction cur next - direction prev cur)
  have hiff := sin_sub_cos_eq_one_iff hlo hhi
  rw [onCircle_endAngle_iff, Inscribed]
  -- only a straight corner has the center on the other side, and then there is no such angle
  by_cases hzero : signedTurn prev cur next = 0
  · rw [dist_arcEnd_of_straight hzero, hzero, abs_zero]
    constructor
    · rintro ⟨-, heq⟩
      exact .inl (pow_eq_zero_iff two_ne_zero |>.mp (by linarith))
    · rintro (hr | ⟨-, heq | heq⟩)
      · rw [hr]
        norm_num
      · linarith
      · linarith
  · rw [dist_arcEnd (by rw [turnAt_eq]; exact abs_pos.mpr hzero)]
    change Real.sin (signedTurn prev cur next) - Real.cos (signedTurn prev cur next) = 1 ↔ _ at hiff
    constructor
    · rintro ⟨hr, heq⟩
      obtain hr | hr := hr.eq_or_lt
      · exact .inl hr.symm
      · refine .inr ⟨hr, hiff.mp ?_⟩
        have hsq : p.cornerRadius ^ 2 ≠ 0 := (pow_pos hr 2).ne'
        have hone := mul_left_cancel₀ hsq (heq.trans (mul_one _).symm)
        linarith
    · rintro (hr | ⟨hr, hturn⟩)
      · rw [hr]
        norm_num
      · rw [hiff.mpr hturn]
        exact ⟨hr.le, by ring⟩

/-! ## Inside the corner

The other half of what the arc should do. Where it ends in the right place it is a quarter of a
circle that touches both edges, or a point. -/

/-- The begin of the arc is on the circle. -/
theorem polar_startAngle (hr : 0 < p.cornerRadius) (hturn : 0 < turnAt prev cur next) :
    Real.cos (p.startAngle prev cur next) = Real.sin (direction prev cur) ∧
      Real.sin (p.startAngle prev cur next) = -Real.cos (direction prev cur) := by
  have hdist : ((p.arcStart prev cur).x - (p.center prev cur next).x) ^ 2 +
      ((p.arcStart prev cur).y - (p.center prev cur next).y) ^ 2 = p.cornerRadius ^ 2 := by
    rw [center_of_turn hturn]
    simp only [arcStart, CMath.cos_real, CMath.sin_real]
    linear_combination p.cornerRadius ^ 2 * Real.sin_sq_add_cos_sq (direction prev cur)
  obtain ⟨hx, hy⟩ := polar_direction hr.le hdist
  rw [← startAngle, center_of_turn hturn] at hx hy
  simp only [arcStart, CMath.cos_real, CMath.sin_real] at hx hy
  constructor
  · apply mul_left_cancel₀ hr.ne'
    linarith
  · apply mul_left_cancel₀ hr.ne'
    linarith

/-- The direction behind a left turn by a right angle. -/
theorem direction_of_left (hturn : signedTurn prev cur next = Real.pi / 2) :
    Real.cos (direction cur next) = -Real.sin (direction prev cur) ∧
      Real.sin (direction cur next) = Real.cos (direction prev cur) := by
  obtain ⟨hcos, hsin⟩ := cos_direction_out prev cur next
  rw [hcos, hsin, hturn, Real.cos_pi_div_two, Real.sin_pi_div_two]
  constructor <;> ring

/-- The arc of a left turn by a right angle is a quarter of a circle. -/
theorem sweep_of_left (hr : 0 < p.cornerRadius) (hturn : signedTurn prev cur next = Real.pi / 2) :
    p.sweep prev cur next = Real.pi / 2 := by
  have hpi := Real.pi_pos
  have hpos : 0 < turnAt prev cur next := by
    rw [turnAt_eq, hturn, abs_of_pos (by linarith)]
    linarith
  obtain ⟨hcos, hsin⟩ := polar_startAngle hr hpos
  have hend : p.onCircle prev cur next (p.endAngle prev cur next) = p.arcEnd cur next :=
    last_eq_arcEnd_iff.mpr (.inr ⟨hr, .inl hturn⟩)
  have hx := congrArg Waypoint.x hend
  have hy := congrArg Waypoint.y hend
  obtain ⟨hcos_out, hsin_out⟩ := direction_of_left hturn
  rw [onCircle, center_of_turn hpos] at hx hy
  simp only [arcEnd, CMath.cos_real, CMath.sin_real, hcos_out, hsin_out] at hx hy
  have hcos_end : Real.cos (p.endAngle prev cur next) = Real.cos (direction prev cur) := by
    apply mul_left_cancel₀ hr.ne'
    linarith
  have hsin_end : Real.sin (p.endAngle prev cur next) = Real.sin (direction prev cur) := by
    apply mul_left_cancel₀ hr.ne'
    linarith
  obtain ⟨hlo, hhi, m, hm⟩ :=
    normalizeAngle_spec (p.endAngle prev cur next - p.startAngle prev cur next)
  -- from the begin of the arc to its end it is a quarter turn to the left
  have hquarter : normalizeAngle (p.endAngle prev cur next - p.startAngle prev cur next) =
      Real.pi / 2 := by
    refine eq_pi_div_two hlo hhi ?_
    rw [hm, mul_comm (2 * Real.pi), Real.sin_add_int_mul_two_pi, Real.sin_sub, hcos_end, hsin_end,
      hcos, hsin]
    linear_combination Real.sin_sq_add_cos_sq (direction prev cur)
  have hkeep : ¬ Real.pi / 2 * turnAt prev cur next < 0 :=
    not_lt.mpr (mul_nonneg (by linarith) hpos.le)
  simp only [sweep, hquarter, if_neg hkeep]

/-- Such an arc stays inside the corner. Its points are combinations of the three corners with
weights in the sine and the cosine of the angle along the arc. -/
theorem inTriangle_of_left (hr : 0 < p.cornerRadius)
    (hturn : signedTurn prev cur next = Real.pi / 2) {t : ℝ} (ht : 0 ≤ t) (ht' : t ≤ 1) :
    InTriangle (p.arcStart prev cur) cur (p.arcEnd cur next)
      (p.onCircle prev cur next (p.startAngle prev cur next + p.sweep prev cur next * t)) := by
  have hpi := Real.pi_pos
  have hpos : 0 < turnAt prev cur next := by
    rw [turnAt_eq, hturn, abs_of_pos (by linarith)]
    linarith
  obtain ⟨hcos, hsin⟩ := polar_startAngle hr hpos
  obtain ⟨hcos_out, hsin_out⟩ := direction_of_left hturn
  rw [sweep_of_left hr hturn]
  obtain ⟨φ, hφ⟩ : ∃ φ, φ = Real.pi / 2 * t := ⟨_, rfl⟩
  have hlo : 0 ≤ φ := by
    rw [hφ]
    positivity
  have hhi : φ ≤ Real.pi / 2 := by
    rw [hφ]
    exact mul_le_of_le_one_right (by linarith) ht'
  have hsin_nonneg : 0 ≤ Real.sin φ := Real.sin_nonneg_of_nonneg_of_le_pi hlo (by linarith)
  have hcos_nonneg : 0 ≤ Real.cos φ := Real.cos_nonneg_of_neg_pi_div_two_le_of_le (by linarith) hhi
  have hsum : 1 ≤ Real.sin φ + Real.cos φ := by
    nlinarith [Real.sin_sq_add_cos_sq φ]
  refine ⟨1 - Real.sin φ, Real.sin φ + Real.cos φ - 1, 1 - Real.cos φ,
    sub_nonneg.mpr (Real.sin_le_one φ), sub_nonneg.mpr hsum, sub_nonneg.mpr (Real.cos_le_one φ),
    by ring, ?_, ?_⟩
  · rw [← hφ, onCircle, center_of_turn hpos]
    simp only [arcStart, arcEnd, CMath.cos_real, CMath.sin_real, hcos_out, hsin_out,
      Real.cos_add, hcos, hsin]
    ring
  · rw [← hφ, onCircle, center_of_turn hpos]
    simp only [arcStart, arcEnd, CMath.cos_real, CMath.sin_real, hcos_out, hsin_out,
      Real.sin_add, hcos, hsin]
    ring

/-- Where the path turns back there is one point only. -/
theorem onCircle_of_back (hr : 0 < p.cornerRadius) (hturn : |signedTurn prev cur next| = Real.pi)
    (t : ℝ) :
    p.onCircle prev cur next (p.startAngle prev cur next + p.sweep prev cur next * t) =
      p.arcStart prev cur := by
  have hpi := Real.pi_pos
  have hpos : 0 < turnAt prev cur next := by
    rw [turnAt_eq, hturn]
    exact hpi
  obtain ⟨hcos, hsin⟩ := cos_direction_out prev cur next
  have hcos' : Real.cos (signedTurn prev cur next) = -1 := by
    rw [← Real.cos_abs, hturn, Real.cos_pi]
  have hsin' : Real.sin (signedTurn prev cur next) = 0 := by
    nlinarith [Real.sin_sq_add_cos_sq (signedTurn prev cur next)]
  rw [hcos', hsin'] at hcos hsin
  -- the outgoing edge lies on the incoming one, so the arc ends where it begins
  have hsame : p.arcEnd cur next = p.arcStart prev cur := by
    simp only [arcEnd, arcStart, CMath.cos_real, CMath.sin_real, hcos, hsin]
    congr 1 <;> ring
  have hsweep : p.sweep prev cur next = 0 := by
    have hzero : normalizeAngle (p.endAngle prev cur next - p.startAngle prev cur next) = 0 := by
      rw [endAngle, startAngle, hsame, sub_self]
      exact normalizeAngle_of_mem (by linarith) hpi.le
    simp only [sweep, hzero, zero_mul, lt_irrefl, if_false]
  obtain ⟨hcos_start, hsin_start⟩ := polar_startAngle hr hpos
  rw [hsweep, zero_mul, add_zero, onCircle, center_of_turn hpos, hcos_start, hsin_start]
  simp only [arcStart, CMath.cos_real, CMath.sin_real]
  congr 1 <;> ring

/-- Every sample of an arc that ends where it is meant to is inside the corner. -/
theorem Inscribed.inTriangle (h : p.Inscribed prev cur next) {s : Waypoint ℝ}
    (hs : s ∈ p.arcSamples prev cur next) :
    InTriangle (p.arcStart prev cur) cur (p.arcEnd cur next) s := by
  rw [p.arcSamples_eq] at hs
  obtain ⟨i, hi, rfl⟩ := List.mem_map.mp hs
  have hi : i + 1 ≤ p.arcSteps prev cur next := List.mem_range.mp hi
  rcases h with hr | ⟨hr, hturn | hturn⟩
  · refine ⟨0, 1, 0, le_rfl, zero_le_one, le_rfl, by norm_num, ?_, ?_⟩
    · simp [onCircle, center, arcStart, hr]
    · simp [onCircle, center, arcStart, hr]
  · refine inTriangle_of_left hr hturn (by positivity) ?_
    exact div_le_one_of_le₀ (by exact_mod_cast hi) (Nat.cast_nonneg _)
  · rw [onCircle_of_back hr hturn]
    exact ⟨1, 0, 0, zero_le_one, le_rfl, le_rfl, by norm_num, by ring, by ring⟩

/-- **Rounded corners**, for every polyline and every corner that is rounded: the arc stays
inside the corner and ends where it is meant to exactly when the path turns left by a right
angle, or back. -/
theorem arc_inside_iff (p : PathSmoother ℝ) (path : List (Waypoint ℝ)) :
    ∀ e ∈ edges path, ∀ next, e.next = some next → p.Rounds e →
      ((∀ s ∈ p.arcs e,
            InTriangle (p.arcStart e.prev e.cur) e.cur (p.arcEnd e.cur next) s) ∧
          (p.arcs e).getLast? = some (p.arcEnd e.cur next) ↔
        p.Inscribed e.prev e.cur next) := by
  intro e _ next hnext hround
  have harcs : p.arcs e = p.arcSamples e.prev e.cur next := by
    rw [arcs, if_pos hround, hnext]
    exact List.flatMap_singleton _ _
  rw [harcs, getLast?_arcSamples, Option.some.injEq, last_eq_arcEnd_iff]
  exact ⟨And.right, fun h => ⟨fun s hs => h.inTriangle hs, h⟩⟩

theorem arc_inside_leftCorner :
    (∀ s ∈ ({} : PathSmoother ℝ).arcs ⟨⟨0, 0⟩, ⟨1, 0⟩, some ⟨1, 1⟩⟩,
          InTriangle (({} : PathSmoother ℝ).arcStart ⟨0, 0⟩ ⟨1, 0⟩) ⟨1, 0⟩
            (({} : PathSmoother ℝ).arcEnd ⟨1, 0⟩ ⟨1, 1⟩) s) ∧
        (({} : PathSmoother ℝ).arcs ⟨⟨0, 0⟩, ⟨1, 0⟩, some ⟨1, 1⟩⟩).getLast? =
          some (({} : PathSmoother ℝ).arcEnd ⟨1, 0⟩ ⟨1, 1⟩) ↔
      ({} : PathSmoother ℝ).Inscribed ⟨0, 0⟩ ⟨1, 0⟩ ⟨1, 1⟩ :=
  ({} : PathSmoother ℝ).arc_inside_iff leftCorner ⟨⟨0, 0⟩, ⟨1, 0⟩, some ⟨1, 1⟩⟩
    List.mem_cons_self ⟨1, 1⟩ rfl rounds_leftCorner

end PathSmoother

/-! ## A corner to the right

The mirror image of the corner for which everything holds. The sign of the turn is lost, and the
arc turns to the left. -/

/-- One metre ahead, and one to the right. -/
def rightCorner : List (Waypoint ℝ) := [⟨0, 0⟩, ⟨1, 0⟩, ⟨1, -1⟩]

theorem signedTurn_rightCorner : signedTurn ⟨0, 0⟩ ⟨1, 0⟩ ⟨1, -1⟩ = -(Real.pi / 2) := by
  have hpi := Real.pi_pos
  have harg : Complex.arg ⟨0, -1⟩ = -(Real.pi / 2) := by
    rw [← Complex.arg_neg_I]
    congr 1
    apply Complex.ext <;> simp
  have hright : direction (⟨1, 0⟩ : Waypoint ℝ) ⟨1, -1⟩ = -(Real.pi / 2) := by
    rw [direction, CMath.atan2_real, sub_zero, sub_self, harg]
  rw [signedTurn, direction_ahead, hright, sub_zero,
    normalizeAngle_of_mem (by linarith) (by linarith)]

/-- The corner is rounded, but the arc ends elsewhere. -/
theorem arc_misses_end :
    ∃ e ∈ edges rightCorner, e.next = some ⟨1, -1⟩ ∧ ({} : PathSmoother ℝ).Rounds e ∧
      (({} : PathSmoother ℝ).arcs e).getLast? ≠
        some (({} : PathSmoother ℝ).arcEnd e.cur ⟨1, -1⟩) := by
  have hpi := Real.pi_pos
  have hround : ({} : PathSmoother ℝ).Rounds ⟨⟨0, 0⟩, ⟨1, 0⟩, some ⟨1, -1⟩⟩ := by
    refine ⟨⟨1, -1⟩, rfl, ?_, ?_, ?_⟩
    · rw [turnAt_eq, signedTurn_rightCorner, abs_neg, abs_of_pos (by linarith), CMath.pi_real,
        div_lt_iff₀ hpi]
      norm_num
      linarith
    · norm_num [dist]
    · norm_num [dist]
  refine ⟨⟨⟨0, 0⟩, ⟨1, 0⟩, some ⟨1, -1⟩⟩, List.mem_cons_self, rfl, hround, ?_⟩
  have harcs : ({} : PathSmoother ℝ).arcs ⟨⟨0, 0⟩, ⟨1, 0⟩, some ⟨1, -1⟩⟩ =
      ({} : PathSmoother ℝ).arcSamples ⟨0, 0⟩ ⟨1, 0⟩ ⟨1, -1⟩ := by
    rw [PathSmoother.arcs, if_pos hround]
    exact List.flatMap_singleton _ _
  rw [harcs, PathSmoother.getLast?_arcSamples, Ne, Option.some.injEq,
    PathSmoother.last_eq_arcEnd_iff, PathSmoother.Inscribed, signedTurn_rightCorner, abs_neg,
    abs_of_pos (by linarith)]
  rintro (hr | ⟨-, hturn | hturn⟩)
  · norm_num at hr
  · linarith
  · linarith

end AmrFramework.Planning
