import AmrFramework.GapScan

/-!
# Left and right

What the avoidance does in a mirror, where the beams and the goal bearing have the opposite
angles. The sectors are then in the opposite order (`histogram_mirror`), but the center of
a gap is not the opposite one: it is half a sector to the left of the middle of the gap, in
the mirror as well (`gapCenter_mirror`). So whenever a gap is chosen, left and right are not
treated alike (`unbiased_iff`).

The mirror is at the level of what comes in: the beams in the opposite order at the opposite
angles. Everything up to the histogram has a mirror image, if no echo is on the border of two
sectors, where a half-open interval has no mirror image. It is the center of a gap where the
symmetry ends.
-/

namespace AmrFramework.Execution

open MaximalRuns

universe u

/-- The scan in a mirror: the last beam is the first, and the angles are the opposite ones. -/
def ScanData.mirror {K : Type u} [Ring K] (scan : ScanData K) : ScanData K where
  ranges := scan.ranges.reverse
  angleMin := -(scan.angleMin + ((scan.ranges.length : K) - 1) * scan.angleIncrement)
  angleIncrement := scan.angleIncrement

/-- A mirror image of the mirror image is the scan. -/
theorem mirror_mirror {K : Type u} [Ring K] (scan : ScanData K) : scan.mirror.mirror = scan := by
  obtain ⟨ranges, angleMin, angleIncrement⟩ := scan
  simp [ScanData.mirror]

/-- An echo in the mirror is one of the scan. -/
theorem mem_echoes_of_mirror {scan : ScanData ℝ} {r a : ℝ} (h : (r, a) ∈ scan.mirror.echoes) :
    (r, -a) ∈ scan.echoes := by
  rw [ScanData.echoes, List.mem_filter] at h ⊢
  obtain ⟨hbeam, hpos⟩ := h
  refine ⟨?_, hpos⟩
  obtain ⟨i, hi, ha⟩ := mem_beams.mp hbeam
  have hlt : i < scan.ranges.length := by
    rw [← List.length_reverse]
    exact (List.getElem?_eq_some_iff.mp hi).1
  have hi' : scan.ranges.reverse[i]? = some (some r) := hi
  rw [List.getElem?_reverse hlt] at hi'
  have hindex : ((scan.ranges.length - 1 - i : ℕ) : ℝ) = scan.ranges.length - 1 - i := by
    rw [Nat.cast_sub (by omega), Nat.cast_sub (by omega), Nat.cast_one]
  refine mem_beams.mpr ⟨_, hi', ?_⟩
  change a = -(scan.angleMin + (scan.ranges.length - 1) * scan.angleIncrement) +
    i * scan.angleIncrement at ha
  rw [hindex, ha]
  ring

/-- Echoes have the opposite angles. -/
theorem mem_echoes_mirror {scan : ScanData ℝ} {r a : ℝ} :
    (r, a) ∈ scan.mirror.echoes ↔ (r, -a) ∈ scan.echoes := by
  refine ⟨mem_echoes_of_mirror, fun h => ?_⟩
  have hback : (r, - -a) ∈ scan.mirror.echoes := mem_echoes_of_mirror (by rwa [mirror_mirror])
  rwa [neg_neg] at hback

/-- The opposite angle, unless it is straight behind. -/
theorem wrap_neg {a : ℝ} (h : wrap a ≠ Real.pi) : wrap (-a) = -wrap a := by
  obtain ⟨hlo, hhi⟩ := wrap_mem a
  obtain ⟨m, hm⟩ := exists_wrap_eq a
  -- only the bound that wrapping leaves out has no opposite
  have hneg : wrap (-a) = wrap (-wrap a) := by
    have hturns := wrap_add_turns (-m) (-a)
    rw [← hturns, hm]
    push_cast
    ring_nf
  rw [hneg]
  exact wrap_of_mem ⟨neg_lt_neg (lt_of_le_of_ne hhi h), by linarith⟩

/-- The size of an angle is the same on both sides. -/
theorem abs_wrap_neg (a : ℝ) : |wrap (-a)| = |wrap a| := by
  by_cases h : wrap a = Real.pi
  · have h' : wrap (-a) = Real.pi := by
      by_contra hne
      have hback := wrap_neg hne
      rw [neg_neg, h] at hback
      obtain ⟨hlo, -⟩ := wrap_mem (-a)
      linarith
    rw [h, h']
  · rw [wrap_neg h, abs_neg]

variable {p : VfhParams ℝ} {scan : ScanData ℝ} {goalAngle cmdV : ℝ}

/-- The avoidance acts in the mirror when it acts. -/
theorem VfhParams.idle_mirror :
    p.Idle ⟨scan.mirror, -goalAngle, cmdV⟩ ↔ p.Idle ⟨scan, goalAngle, cmdV⟩ := by
  refine or_congr_right (not_congr ?_)
  rw [engaged_iff, engaged_iff]
  simp only [Prod.exists, mem_echoes_mirror]
  have hopposite : ∀ a b : ℝ, |wrap (-a - b)| = |wrap (a - -b)| := by
    intro a b
    rw [← abs_wrap_neg (a - -b)]
    ring_nf
  constructor
  · rintro ⟨r, a, he, hfov, hle⟩
    exact ⟨r, -a, he, (hopposite a goalAngle).trans_le hfov, hle⟩
  · rintro ⟨r, a, he, hfov, hle⟩
    refine ⟨r, -a, by rwa [neg_neg], (hopposite a (-goalAngle)).trans_le ?_, hle⟩
    rwa [neg_neg]

/-- Every echo falls strictly inside a sector. -/
def VfhParams.StrictlyInside (p : VfhParams ℝ) (scan : ScanData ℝ) : Prop :=
  ∀ e ∈ scan.echoes, ∀ k : ℤ, p.position e.2 ≠ k

/-- Positions are counted from the other end, -/
theorem VfhParams.position_neg (hbins : 0 < p.binCount) {a : ℝ}
    (hinside : p.position a ≠ p.binCount) : p.position (-a) = p.binCount - p.position a := by
  have hwidth := binWidth_pos hbins
  have hbehind : wrap a ≠ Real.pi := by
    intro hpi
    apply hinside
    rw [VfhParams.position, hpi, div_eq_iff hwidth.ne', binCount_mul_binWidth hbins]
    ring
  rw [VfhParams.position, VfhParams.position, wrap_neg hbehind, eq_sub_iff_add_eq, ← add_div,
    div_eq_iff hwidth.ne', binCount_mul_binWidth hbins]
  ring

/-- An echo strictly inside a sector is in the opposite one in the mirror. -/
theorem VfhParams.sector_neg (hbins : 0 < p.binCount) {a : ℝ}
    (hinside : ∀ k : ℤ, p.position a ≠ k) :
    p.sector (p.binOf (-a)) = p.binCount - 1 - p.sector (p.binOf a) ∧
      p.sector (p.binOf a) < p.binCount := by
  obtain ⟨n, hn⟩ : ∃ n, n = ⌊p.position a⌋₊ := ⟨_, rfl⟩
  have hpos := position_pos hbins a
  have hle := Nat.floor_le hpos.le
  have hlt := Nat.lt_floor_add_one (p.position a)
  rw [← hn] at hle hlt
  have hne : (n : ℝ) ≠ p.position a := fun heq => hinside n (by rw [← heq, Int.cast_natCast])
  have hin : p.position a ≠ p.binCount := by
    have hk := hinside p.binCount
    rwa [Int.cast_natCast] at hk
  have hn' : n < p.binCount := by
    have hreal := hle.trans_lt (lt_of_le_of_ne (position_le hbins a) hin)
    exact_mod_cast hreal
  have hmirror : ((p.binCount - 1 - n : ℕ) : ℝ) = p.binCount - 1 - n := by
    rw [Nat.cast_sub (by omega), Nat.cast_sub (by omega), Nat.cast_one]
  have hsector := sector_binOf hn' hle hlt
  have hsector' : p.sector (p.binOf (-a)) = p.binCount - 1 - n := by
    apply sector_binOf (by omega)
    · rw [hmirror, position_neg hbins hin]
      linarith
    · rw [hmirror, position_neg hbins hin]
      linarith [lt_of_le_of_ne hle hne]
  rw [hsector, hsector']
  exact ⟨rfl, hn'⟩

/-- and what is inside a sector is inside the opposite one. -/
theorem VfhParams.StrictlyInside.mirror (hbins : 0 < p.binCount) (hinside : p.StrictlyInside scan) :
    p.StrictlyInside scan.mirror := by
  rintro ⟨r, a⟩ he k heq
  have hin : ∀ k : ℤ, p.position (-a) ≠ k := hinside (r, -a) (mem_echoes_mirror.mp he)
  have hopposite := position_neg hbins fun hcount => hin p.binCount (by rwa [Int.cast_natCast])
  have heq : p.position a = k := heq
  rw [neg_neg, heq] at hopposite
  refine hin (p.binCount - k) ?_
  push_cast
  linarith

/-- In the mirror the sectors are in the opposite order. -/
theorem VfhParams.histogram_mirror (hbins : 0 < p.binCount) (hinside : p.StrictlyInside scan) :
    (p.histogram scan.mirror).map p.passable = ((p.histogram scan).map p.passable).reverse := by
  have hlength : ∀ scan, ((p.histogram scan).map p.passable).length = p.binCount := by simp
  have hbit : ∀ s < p.binCount, ((p.histogram scan.mirror).map p.passable)[s]? = some true ↔
      ((p.histogram scan).map p.passable)[p.binCount - 1 - s]? = some true := by
    intro s hs
    rw [histogram_passable, histogram_passable, and_iff_right hs, and_iff_right (by omega)]
    -- an echo closes a sector exactly when its mirror image closes the opposite one
    constructor
    · intro hfar e he hsector
      obtain ⟨r, a⟩ := e
      have hin : ∀ k : ℤ, p.position a ≠ k := hinside (r, a) he
      obtain ⟨hopposite, hlt⟩ := sector_neg hbins hin
      have hsector' : p.sector (p.binOf (-a)) = s := by
        rw [hopposite, hsector]
        omega
      exact hfar (r, -a) (mem_echoes_mirror.mpr (by rwa [neg_neg])) hsector'
    · intro hfar e he hsector
      obtain ⟨r, a⟩ := e
      have he' := mem_echoes_mirror.mp he
      have hin : ∀ k : ℤ, p.position (-a) ≠ k := hinside (r, -a) he'
      obtain ⟨hopposite, hlt⟩ := sector_neg hbins hin
      rw [neg_neg] at hopposite
      have hsector' : p.sector (p.binOf (-a)) = p.binCount - 1 - s := by
        have hsector : p.sector (p.binOf a) = s := hsector
        omega
      exact hfar (r, -a) he' hsector'
  refine ext_true (by rw [List.length_reverse, hlength, hlength]) fun s hs => ?_
  rw [hlength] at hs
  rw [List.getElem?_reverse (by rwa [hlength]), hlength]
  exact hbit s hs

/-! ## The gaps in the mirror

A maximal run that is read backwards is one (`MaximalRun.reverse`), so the gaps are the mirrored
ones. Their centers are not. -/

/-- A run of sectors in the mirror. -/
def VfhParams.mirrorRun (p : VfhParams ℝ) (run : ℕ × ℕ) : ℕ × ℕ :=
  (p.binCount - (run.1 + run.2), run.2)

/-- A gap is a gap in the mirror. -/
theorem VfhParams.mirrorRun_mem_gaps (hbins : 0 < p.binCount) (hinside : p.StrictlyInside scan)
    {run : ℕ × ℕ} (hrun : run ∈ p.gaps (p.histogram scan)) :
    p.mirrorRun run ∈ p.gaps (p.histogram scan.mirror) := by
  obtain ⟨hmax, hlen⟩ := mem_gaps.mp hrun
  have hreverse := hmax.reverse
  rw [← histogram_mirror hbins hinside, List.length_map, length_histogram] at hreverse
  exact mem_gaps.mpr ⟨hreverse, hlen⟩

/-- The center of a gap in the mirror is a whole sector to the left of the opposite of its
center. -/
theorem VfhParams.gapCenter_mirror (hbins : 0 < p.binCount) {run : ℕ × ℕ} (hpos : 0 < run.2)
    (hle : run.1 + run.2 ≤ p.binCount) :
    p.gapCenter (p.mirrorRun run) = wrap (-p.gapCenter run + p.binWidth) := by
  have hcast : ((p.binCount - (run.1 + run.2) : ℕ) : ℝ) = p.binCount - (run.1 + run.2) := by
    rw [Nat.cast_sub hle, Nat.cast_add]
  have hturn := binCount_mul_binWidth hbins
  rw [p.gapCenter_eq, (gapCenter_of_le hbins hpos hle).1, VfhParams.mirrorRun, hcast]
  congr 1
  linear_combination hturn

/-! ## What is chosen

`Unbiased` asks two things, the center of the chosen gap and the steering it leads to. The first
fails for every gap, so the equivalence is decided by whether any is chosen. -/

/-- The angle at which a sector begins. -/
noncomputable def VfhParams.edge (p : VfhParams ℝ) (s : ℕ) : ℝ := -Real.pi + s * p.binWidth

/-- The middle of a run, between its two edges. -/
noncomputable def VfhParams.middle (p : VfhParams ℝ) (run : ℕ × ℕ) : ℝ :=
  (p.edge run.1 + p.edge (run.1 + run.2)) / 2

/-- The run whose center is chosen, without a memory. -/
def VfhParams.Picks (p : VfhParams ℝ) (scan : ScanData ℝ) (goalAngle cmdV : ℝ) (run : ℕ × ℕ) :
    Prop :=
  ¬ p.Idle ⟨scan, goalAngle, cmdV⟩ ∧ run ∈ p.gaps (p.histogram scan) ∧
    p.bestGapCenter (p.histogram scan) goalAngle = some (p.gapCenter run)

/-- No two gaps are the closest to the goal bearing. -/
def VfhParams.ClosestUnique (p : VfhParams ℝ) (scan : ScanData ℝ) (goalAngle : ℝ) : Prop :=
  ∀ run ∈ p.gaps (p.histogram scan), ∀ run' ∈ p.gaps (p.histogram scan),
    (∀ other ∈ p.gaps (p.histogram scan), p.score goalAngle run ≤ p.score goalAngle other) →
    p.score goalAngle run' = p.score goalAngle run → run' = run

/-- Left and right are treated alike: the mirrored scan and goal give the mirrored gap and the
opposite turn, and the centre chosen is the middle of its gap. Where two runs are equally close
to the goal, the first one wins, and nothing is said. -/
structure VfhParams.Unbiased (p : VfhParams ℝ) (scan : ScanData ℝ) (goalAngle cmdV : ℝ) :
    Prop where
  center : p.ClosestUnique scan goalAngle → ∀ run, p.Picks scan goalAngle cmdV run →
    p.bestGapCenter (p.histogram scan.mirror) (-goalAngle) = some (wrap (-p.gapCenter run))
  steering : p.ClosestUnique scan goalAngle →
    (p.steer none scan.mirror (-goalAngle) cmdV).1.steering =
      -(p.steer none scan goalAngle cmdV).1.steering
  middle : ∀ run, p.Picks scan goalAngle cmdV run → p.gapCenter run = wrap (p.middle run)

/-- The center of a gap is not its middle. -/
theorem VfhParams.gapCenter_ne_middle (hbins : 0 < p.binCount) {run : ℕ × ℕ} (hpos : 0 < run.2)
    (hle : run.1 + run.2 ≤ p.binCount) : p.gapCenter run ≠ wrap (p.middle run) := by
  have hmiddle : p.middle run = -Real.pi + ((run.1 : ℝ) + run.2 / 2) * p.binWidth := by
    rw [VfhParams.middle, VfhParams.edge, VfhParams.edge]
    push_cast
    ring
  have hone : (1 : ℝ) ≤ run.2 := by exact_mod_cast hpos
  have hend : (run.1 : ℝ) + run.2 ≤ p.binCount := by exact_mod_cast hle
  have hstart : (0 : ℝ) ≤ run.1 := run.1.cast_nonneg
  obtain ⟨hwrap, hposition⟩ := position_angle hbins (x := run.1 + run.2 / 2) (by linarith)
    (by linarith)
  intro heq
  have hcenter := (gapCenter_of_le hbins hpos hle).2
  rw [heq, hmiddle, hwrap, hposition] at hcenter
  linarith

/-- **Left and right**, for every scan with its echoes strictly inside sectors, and every goal
bearing: they are treated alike exactly when no gap is chosen. If one is, it is not the middle of
its run (`gapCenter_ne_middle`), and the mirror image of the run has its center on the same side. -/
theorem VfhParams.unbiased_iff (hbins : 0 < p.binCount) (hinside : p.StrictlyInside scan)
    (goalAngle cmdV : ℝ) :
    p.Unbiased scan goalAngle cmdV ↔
      p.Idle ⟨scan, goalAngle, cmdV⟩ ∨ p.gaps (p.histogram scan) = [] := by
  constructor
  · intro hunbiased
    by_contra hchosen
    obtain ⟨hidle, hgaps⟩ := not_or.mp hchosen
    rcases p.bestGapCenter_cases (p.histogram scan) goalAngle with
      ⟨hnone, -⟩ | ⟨run, hrun, hbest, -⟩
    · exact hgaps hnone
    · -- the gap that is chosen is not centered
      have hmax := (mem_gaps.mp hrun).1
      have hle := hmax.le_length
      rw [List.length_map, length_histogram] at hle
      exact gapCenter_ne_middle hbins hmax.pos hle (hunbiased.middle run ⟨hidle, hrun, hbest⟩)
  · rintro (hidle | hnone)
    · have hmirror := idle_mirror.mpr hidle
      refine ⟨fun _ run hpick => absurd hidle hpick.1, fun _ => ?_,
        fun run hpick => absurd hidle hpick.1⟩
      rw [steer_of_idle hmirror, steer_of_idle hidle, neg_zero]
    · have hnopick : ∀ run, ¬ p.Picks scan goalAngle cmdV run := by
        rintro run ⟨-, hrun, -⟩
        rw [hnone] at hrun
        cases hrun
      refine ⟨fun _ run hpick => absurd hpick (hnopick run), fun _ => ?_,
        fun run hpick => absurd hpick (hnopick run)⟩
      by_cases hidle : p.Idle ⟨scan, goalAngle, cmdV⟩
      · rw [steer_of_idle (idle_mirror.mpr hidle), steer_of_idle hidle, neg_zero]
      · -- a gap in the mirror would be one of the scan
        have hnone' : p.gaps (p.histogram scan.mirror) = [] := by
          refine List.eq_nil_iff_forall_not_mem.mpr fun run hrun => ?_
          have hback := mirrorRun_mem_gaps hbins (hinside.mirror hbins) hrun
          rw [mirror_mirror, hnone] at hback
          cases hback
        rw [steer_of_not_idle (mt idle_mirror.mp hidle), steer_of_not_idle hidle,
          bestGapCenter_eq_none.mpr hnone, bestGapCenter_eq_none.mpr hnone', neg_zero]

/-! ## An obstacle ahead

The difference is half a sector, three degrees with the defaults. It decides where to turn when
an obstacle is less than that off the middle. -/

/-- A single echo in a mirror is one at the opposite angle. -/
theorem mirror_singleEcho (angle : ℝ) : (singleEcho angle).mirror = singleEcho (-angle) := by
  simp [ScanData.mirror, singleEcho]

/-- An obstacle a little to the left. -/
theorem strictlyInside_singleEcho : ({} : VfhParams ℝ).StrictlyInside (singleEcho 0.05) := by
  have hpi := Real.pi_gt_three
  intro e he k hk
  rw [echoes_singleEcho, List.mem_singleton] at he
  rw [he, VfhParams.position, VfhParams.binWidth_eq,
    wrap_of_mem ⟨by norm_num; linarith, by linarith⟩, div_div_eq_mul_div,
    div_eq_iff (by positivity)] at hk
  have hlo : ((30 : ℤ) : ℝ) < k := by
    push_cast
    by_contra hle
    norm_num at hk
    nlinarith
  have hhi : (k : ℝ) < ((31 : ℤ) : ℝ) := by
    push_cast
    by_contra hle
    norm_num at hk
    nlinarith
  have hlo' : 30 < k := by exact_mod_cast hlo
  have hhi' : k < 31 := by exact_mod_cast hhi
  omega

/-- The obstacle lies in sector 30, in the mirror in sector 29. -/
theorem binOf_singleEcho :
    ({} : VfhParams ℝ).binOf 0.05 = (30 : ℕ) ∧ ({} : VfhParams ℝ).binOf (-0.05) = (29 : ℕ) := by
  have hpi := Real.pi_gt_three
  constructor
  · exact binOf_eq ⟨by linarith, by linarith⟩ (by push_cast; linarith) (by push_cast; linarith)
  · exact binOf_eq ⟨by linarith, by linarith⟩ (by push_cast; linarith) (by push_cast; linarith)

/-- Of the gaps on both sides of the obstacle one is closer. -/
theorem closestUnique_singleEcho : ({} : VfhParams ℝ).ClosestUnique (singleEcho 0.05) 0 := by
  have hgaps : ({} : VfhParams ℝ).gaps (({} : VfhParams ℝ).histogram (singleEcho 0.05)) =
      [(0, 30), (31, 29)] := by
    rw [VfhParams.gaps, passable_singleEcho binOf_singleEcho.1 (by norm_num)]
    decide
  have hscore : ∀ run ∈ [(0, 30), (31, 29)], ∀ run' ∈ [(0, 30), (31, 29)],
      ({} : VfhParams ℝ).score 0 run' = ({} : VfhParams ℝ).score 0 run → run' = run := by
    have hright : ({} : VfhParams ℝ).score 0 (0, 30) = 29 / 60 * Real.pi := by
      rw [VfhParams.score, gapCenter_eq (c := -29 / 60) (by norm_num) (by norm_num) (by norm_num),
        sub_zero, wrap_mul_pi (by norm_num) (by norm_num), abs_mul, abs_of_pos Real.pi_pos]
      norm_num [abs_of_neg]
    have hleft : ({} : VfhParams ℝ).score 0 (31, 29) = 8 / 15 * Real.pi := by
      rw [VfhParams.score, gapCenter_eq (c := 8 / 15) (by norm_num) (by norm_num) (by norm_num),
        sub_zero, wrap_mul_pi (by norm_num) (by norm_num), abs_mul, abs_of_pos Real.pi_pos]
      norm_num [abs_of_pos]
    have hne : ({} : VfhParams ℝ).score 0 (0, 30) ≠ ({} : VfhParams ℝ).score 0 (31, 29) := by
      rw [hright, hleft, Ne, mul_left_inj' Real.pi_ne_zero]
      norm_num
    simp only [List.forall_mem_cons, List.not_mem_nil, false_imp_iff, implies_true, and_true,
      true_and]
    exact ⟨fun heq => absurd heq.symm hne, fun heq => absurd heq hne⟩
  intro run hrun run' hrun' _ heq
  rw [hgaps] at hrun hrun'
  exact hscore run hrun run' hrun' heq

/-- The robot turns to the right. -/
theorem steering_singleEcho :
    (({} : VfhParams ℝ).steer none (singleEcho 0.05) 0 0.5).1.steering = -1.5 := by
  have hidle := not_idle_singleEcho 0.05 (by norm_num [abs_of_pos])
  have hpi := Real.pi_gt_three
  rw [VfhParams.steer_of_not_idle hidle, bestGapCenter_right binOf_singleEcho.1]
  refine if_pos ?_
  norm_num [VfhParams.chooseGap]
  linarith

/-- In the mirror it also turns to the right. -/
theorem steering_mirror :
    (({} : VfhParams ℝ).steer none (singleEcho (-0.05)) 0 0.5).1.steering = -1.5 := by
  have hidle := not_idle_singleEcho (-0.05) (by norm_num [abs_of_neg])
  have hpi := Real.pi_gt_three
  have hruns : passableRuns ((List.replicate 60 true).set 29 false) 0 none = [(0, 29), (30, 30)] :=
    by decide
  rw [← passable_singleEcho binOf_singleEcho.2 (by norm_num)] at hruns
  rw [VfhParams.steer_of_not_idle hidle,
    bestGapCenter_of_runs (x := -1 / 2) (y := 31 / 60) hruns (by decide) (by decide)
    (by norm_num) (by norm_num) (by norm_num) (by norm_num) (by norm_num) (by norm_num)]
  refine if_pos ?_
  norm_num [VfhParams.chooseGap, abs_of_pos, abs_of_neg]
  linarith

/-- So left and right are not treated alike. -/
theorem not_unbiased :
    ({} : VfhParams ℝ).StrictlyInside (singleEcho 0.05) ∧
      ({} : VfhParams ℝ).ClosestUnique (singleEcho 0.05) 0 ∧
      ¬ ({} : VfhParams ℝ).Unbiased (singleEcho 0.05) 0 0.5 := by
  refine ⟨strictlyInside_singleEcho, closestUnique_singleEcho, fun hunbiased => ?_⟩
  have hopposite := hunbiased.steering closestUnique_singleEcho
  rw [mirror_singleEcho, neg_zero, steering_mirror, steering_singleEcho] at hopposite
  norm_num at hopposite

theorem unbiased_singleEcho :
    ({} : VfhParams ℝ).Unbiased (singleEcho 0.05) 0 0.5 ↔
      ({} : VfhParams ℝ).Idle ⟨singleEcho 0.05, 0, 0.5⟩ ∨
        ({} : VfhParams ℝ).gaps (({} : VfhParams ℝ).histogram (singleEcho 0.05)) = [] :=
  VfhParams.unbiased_iff (by decide) strictlyInside_singleEcho 0 0.5

end AmrFramework.Execution
