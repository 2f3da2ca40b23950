import AmrFramework.GapScan

/-!
# Gaps over the seam

The sectors go once around the robot, so that the last one is next to the first. The scan
for gaps reads them as a line. Where the only gap lies over the seam, straight behind the
robot, it sees two runs that may both be too short, and reports that the robot is
surrounded (`blocked_iff_surrounded`).

All around, a gap is a block of a circle, and a block of a circle either is one of the line or
goes over the seam (`MaximalRuns.circular_iff`). The condition says that the blocks of the second
kind never come alone.
-/

namespace AmrFramework.Execution

open MaximalRuns

universe u

section Seam

variable {K : Type u} [Field K] [LinearOrder K]

/-- No `min_gap_bins` sectors in a row are passable, all around the robot. -/
def VfhParams.Surrounded (p : VfhParams K) (bins : List (Option K)) : Prop :=
  ¬ ∃ s < bins.length, CircularBlock (bins.map p.passable) s p.minGapBins

/-- If the last sectors and the first ones together are a gap, then there is also one that
does not go over the seam. -/
def VfhParams.OpenInside (p : VfhParams K) (bins : List (Option K)) : Prop :=
  ∀ i j, i + j = p.minGapBins → Block (bins.map p.passable) 0 i →
    Block (bins.map p.passable) (bins.length - j) j →
    ∃ s, Block (bins.map p.passable) s p.minGapBins

variable {p : VfhParams K}

/-- With no gap in the line the robot is surrounded, unless there is one over the seam. -/
theorem VfhParams.surrounded_iff {bins : List (Option K)} (hgap : 1 ≤ p.minGapBins)
    (hbins : p.minGapBins ≤ bins.length) :
    (p.gaps bins = [] ↔ p.Surrounded bins) ↔ p.OpenInside bins := by
  have hlen : (bins.map p.passable).length = bins.length := List.length_map _
  have hcircle := circular_iff (bins.map p.passable) hgap (hlen ▸ hbins)
  rw [hlen] at hcircle
  rw [gaps_eq_nil_iff hgap, VfhParams.Surrounded, hcircle, not_iff_not]
  constructor
  · intro hiff i j hsum hfirst hlast
    exact hiff.mpr (.inr ⟨i, j, hsum, hfirst, hlast⟩)
  · refine fun hopen => ⟨.inl, ?_⟩
    rintro (hline | ⟨i, j, hsum, hfirst, hlast⟩)
    · exact hline
    · exact hopen i j hsum hfirst hlast

variable [CMath K] [FloorRing K]

/-- The robot is reported as surrounded when there is no gap in the line. -/
theorem VfhParams.blocked_iff {memory : Option K} {scan : ScanData K} {goalAngle cmdV : K}
    (hmoving : p.minLinear < cmdV) (hengaged : p.Engaged scan goalAngle) :
    (p.steer memory scan goalAngle cmdV).1.blocked = true ↔ p.gaps (p.histogram scan) = [] := by
  have hidle : ¬ p.Idle ⟨scan, goalAngle, cmdV⟩ :=
    not_or.mpr ⟨not_le.mpr hmoving, not_not.mpr hengaged⟩
  rw [VfhParams.steer_of_not_idle hidle, ← bestGapCenter_eq_none]
  cases p.bestGapCenter (p.histogram scan) goalAngle with
  | none => exact iff_of_true rfl rfl
  | some fresh => exact iff_of_false Bool.false_ne_true (Option.some_ne_none fresh)

/-- **Surrounded**, for every memory, scan and goal bearing: when an obstacle is near the goal
bearing, the robot is reported as surrounded exactly if it is, exactly when not all gaps lie over
the seam. The memory plays no part, since a gap is searched for before the memory is looked at. -/
theorem VfhParams.blocked_iff_surrounded (hgap : 1 ≤ p.minGapBins)
    (hbins : p.minGapBins ≤ p.binCount) (memory : Option K) {scan : ScanData K}
    {goalAngle cmdV : K} (hmoving : p.minLinear < cmdV) (hengaged : p.Engaged scan goalAngle) :
    ((p.steer memory scan goalAngle cmdV).1.blocked = true ↔ p.Surrounded (p.histogram scan)) ↔
      p.OpenInside (p.histogram scan) := by
  rw [blocked_iff hmoving hengaged]
  exact surrounded_iff hgap (by rwa [p.length_histogram])

end Seam

/-! ## A gap straight behind

Three sectors are open, two on one side of the seam and one on the other; three is what a gap
needs, and neither side has them. -/

/-- Echoes at 0.3 m all around, from -2.9 to 3.0, except straight behind. -/
noncomputable def openBehind : ScanData ℝ where
  ranges := .replicate 60 (some 0.3)
  angleMin := -2.9
  angleIncrement := 0.1

/-- The angle of an echo. -/
noncomputable def angleBehind (i : ℕ) : ℝ := -2.9 + i * 0.1

/-- The echoes and their angles, -/
theorem mem_echoes_openBehind {e : ℝ × ℝ} :
    e ∈ openBehind.echoes ↔ ∃ i < 60, e = (0.3, angleBehind i) := by
  obtain ⟨r, a⟩ := e
  simp only [ScanData.echoes, List.mem_filter, mem_beams, openBehind, List.getElem?_replicate,
    decide_eq_true_eq, Prod.mk.injEq, angleBehind]
  constructor
  · rintro ⟨⟨i, hi, ha⟩, -⟩
    split_ifs at hi with hlt
    obtain rfl := Option.some.inj (Option.some.inj hi)
    exact ⟨i, hlt, rfl, ha⟩
  · rintro ⟨i, hlt, rfl, rfl⟩
    exact ⟨⟨i, if_pos hlt, rfl⟩, by norm_num⟩

/-- which are on the line at these positions. -/
theorem position_angleBehind {i : ℕ} (hi : i < 60) :
    ({} : VfhParams ℝ).position (angleBehind i) = (angleBehind i + Real.pi) * 30 / Real.pi := by
  have hpi := Real.pi_gt_three
  have hle : (i : ℝ) ≤ 59 := by exact_mod_cast Nat.le_of_lt_succ hi
  have hpos : (0 : ℝ) ≤ i := i.cast_nonneg
  have hmem : angleBehind i ∈ Set.Ioc (-Real.pi) Real.pi := by
    rw [angleBehind]
    exact ⟨by linarith, by linarith⟩
  rw [VfhParams.position, VfhParams.binWidth_eq, wrap_of_mem hmem]
  field_simp
  norm_num
  ring

/-- The echoes lie in the sectors from 2 to 58. -/
theorem sector_angleBehind {i : ℕ} (hi : i < 60) :
    2 ≤ ({} : VfhParams ℝ).sector (({} : VfhParams ℝ).binOf (angleBehind i)) ∧
      ({} : VfhParams ℝ).sector (({} : VfhParams ℝ).binOf (angleBehind i)) < 59 := by
  have hpi := Real.pi_gt_d2
  have hle : (i : ℝ) ≤ 59 := by exact_mod_cast Nat.le_of_lt_succ hi
  have hpos : (0 : ℝ) ≤ i := i.cast_nonneg
  have hfrom : 2 ≤ ({} : VfhParams ℝ).position (angleBehind i) := by
    rw [position_angleBehind hi, le_div_iff₀ (by linarith), angleBehind]
    linarith
  have hto : ({} : VfhParams ℝ).position (angleBehind i) < 59 := by
    rw [position_angleBehind hi, div_lt_iff₀ (by linarith), angleBehind]
    linarith
  have hfloor : ⌊({} : VfhParams ℝ).position (angleBehind i)⌋₊ < 59 :=
    (Nat.floor_lt (by linarith)).mpr (by exact_mod_cast hto)
  have hsector : ({} : VfhParams ℝ).sector (({} : VfhParams ℝ).binOf (angleBehind i)) =
      ⌊({} : VfhParams ℝ).position (angleBehind i)⌋₊ :=
    VfhParams.sector_binOf (hfloor.trans (by decide)) (Nat.floor_le (by linarith))
      (Nat.lt_floor_add_one _)
  rw [hsector]
  exact ⟨Nat.le_floor (by exact_mod_cast hfrom), hfloor⟩

/-- Each of these sectors has an echo. -/
theorem exists_angleBehind {s : ℕ} (hlo : 2 ≤ s) (hhi : s < 59) :
    ∃ i < 60, ({} : VfhParams ℝ).sector (({} : VfhParams ℝ).binOf (angleBehind i)) = s := by
  have hpi := Real.pi_gt_d2
  have hpi' := Real.pi_lt_d2
  have hs : (2 : ℝ) ≤ s := by exact_mod_cast hlo
  have hs' : (s : ℝ) ≤ 58 := by exact_mod_cast Nat.le_of_lt_succ hhi
  have hmul : 2 * Real.pi ≤ s * Real.pi := mul_le_mul_of_nonneg_right hs (by linarith)
  have hmul' : s * Real.pi ≤ 58 * Real.pi := mul_le_mul_of_nonneg_right hs' (by linarith)
  -- the first echo that is not before the sector
  obtain ⟨i, hi⟩ : ∃ i : ℕ, ⌈s * Real.pi / 3 - 10 * Real.pi + 29⌉ = (i : ℤ) := by
    refine Int.eq_ofNat_of_zero_le ?_
    have hgt : ((-1 : ℤ) : ℝ) < s * Real.pi / 3 - 10 * Real.pi + 29 := by
      push_cast
      linarith
    exact Int.lt_ceil.mpr hgt
  have hge : s * Real.pi / 3 - 10 * Real.pi + 29 ≤ i := by
    have hceil := Int.le_ceil (s * Real.pi / 3 - 10 * Real.pi + 29)
    rw [hi] at hceil
    exact_mod_cast hceil
  have hlt : (i : ℝ) < s * Real.pi / 3 - 10 * Real.pi + 29 + 1 := by
    have hceil := Int.ceil_lt_add_one (s * Real.pi / 3 - 10 * Real.pi + 29)
    rw [hi] at hceil
    exact_mod_cast hceil
  have hi60 : i < 60 := by
    have hreal : (i : ℝ) < 60 := by linarith
    exact_mod_cast hreal
  refine ⟨i, hi60, VfhParams.sector_binOf (hhi.trans (by decide)) ?_ ?_⟩
  · rw [position_angleBehind hi60, le_div_iff₀ (by linarith), angleBehind]
    linarith
  · rw [position_angleBehind hi60, div_lt_iff₀ (by linarith), angleBehind]
    linarith

/-- Three sectors are passable: two on one side of the seam, and one on the other. -/
theorem passable_openBehind (s : ℕ) :
    ((({} : VfhParams ℝ).histogram openBehind).map ({} : VfhParams ℝ).passable)[s]? = some true ↔
      s = 0 ∨ s = 1 ∨ s = 59 := by
  rw [VfhParams.histogram_passable]
  constructor
  · rintro ⟨hs, hfar⟩
    have hs : s < 60 := hs
    by_contra hother
    obtain ⟨i, hi, hsector⟩ := exists_angleBehind (s := s) (by omega) (by omega)
    have hfar' := hfar _ (mem_echoes_openBehind.mpr ⟨i, hi, rfl⟩) hsector
    norm_num at hfar'
  · intro hs
    refine ⟨show s < 60 by omega, fun e he hsector => ?_⟩
    obtain ⟨i, hi, rfl⟩ := mem_echoes_openBehind.mp he
    have hin := sector_angleBehind hi
    rw [hsector] at hin
    omega

/-- The first obstacle is ahead. -/
theorem engaged_openBehind : ({} : VfhParams ℝ).Engaged openBehind 0 := by
  refine VfhParams.engaged_iff.mpr
    ⟨_, mem_echoes_openBehind.mpr ⟨29, by norm_num, rfl⟩, ?_, by norm_num⟩
  have hahead : angleBehind 29 - 0 = 0 := by
    norm_num [angleBehind]
  rw [hahead, wrap_zero]
  norm_num

theorem blocked_iff_surrounded_behind :
    ((({} : VfhParams ℝ).steer none openBehind 0 0.5).1.blocked = true ↔
        ({} : VfhParams ℝ).Surrounded (({} : VfhParams ℝ).histogram openBehind)) ↔
      ({} : VfhParams ℝ).OpenInside (({} : VfhParams ℝ).histogram openBehind) :=
  VfhParams.blocked_iff_surrounded (by decide) (by decide) none (by norm_num) engaged_openBehind

/-- With an obstacle ahead and a gap behind, the report that the robot is surrounded is wrong. -/
theorem blocked_not_surrounded :
    ({} : VfhParams ℝ).Engaged openBehind 0 ∧
      (({} : VfhParams ℝ).steer none openBehind 0 0.5).1.blocked = true ∧
      ¬ ({} : VfhParams ℝ).Surrounded (({} : VfhParams ℝ).histogram openBehind) := by
  refine ⟨engaged_openBehind, ?_, not_not.mpr ⟨59, ?_, fun j hj => ?_⟩⟩
  · rw [VfhParams.blocked_iff (by norm_num) engaged_openBehind,
      VfhParams.gaps_eq_nil_iff (by decide)]
    rintro ⟨s, hblock⟩
    have h0 := (passable_openBehind _).mp (hblock 0 (by decide))
    have h1 := (passable_openBehind _).mp (hblock 1 (by decide))
    have h2 := (passable_openBehind _).mp (hblock 2 (by decide))
    omega
  · rw [VfhParams.length_histogram]
    decide
  · have hj : j < 3 := hj
    rw [passable_openBehind, List.length_map, VfhParams.length_histogram]
    change (59 + j) % 60 = 0 ∨ (59 + j) % 60 = 1 ∨ (59 + j) % 60 = 59
    omega

end AmrFramework.Execution
