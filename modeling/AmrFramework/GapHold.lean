import AmrFramework.GapScan

/-!
# Holding on to a gap

The avoidance keeps to a gap while the sector of its center and the two next to it are
passable. The center of a fresh gap lies half a sector to the left of its middle, so that
the sector to the left of a gap of three sectors, or fewer, is among them
(`passable_at_center_iff`): the gap is given up in the next round. All others are kept
(`gap_held`).

That gap was chosen because it was a maximal run, and it still is one; nothing has happened to
it. What has changed is only who looks at it: choosing measures whole runs, and holding on
measures three sectors around one angle.
-/

namespace AmrFramework.Execution

open MaximalRuns

variable {p : VfhParams ℝ} {bins : List (Option ℝ)}

/-! ## The sectors that are looked at

In a run with an even number of sectors the center lies in a sector, the one to the left of the
middle of the run; in one with an odd number it lies on the border between the middle sector and
the next, and counts to the next. Either way a run of four has both neighbours of that sector
inside, and a run of three has not. -/

/-- `gap_passable_at` looks at the sector of the angle and those next to it. -/
theorem VfhParams.gapPassableAt_iff (hbins : 0 < p.binCount) (hlen : bins.length = p.binCount)
    {angle : ℝ} {b : ℕ} (hb : p.binOf angle = b) (hle : b ≤ p.binCount) :
    p.gapPassableAt bins angle = true ↔
      ∀ i < p.binCount, b ≤ i + 1 → i ≤ b + 1 → (bins.map p.passable)[i]? = some true := by
  have hat : ∀ s < p.binCount, (bins[s]?).all p.passable = true ↔
      (bins.map p.passable)[s]? = some true := by
    intro s hs
    rw [List.getElem?_map, List.getElem?_eq_getElem (hlen ▸ hs)]
    simp
  have hsector : ∀ bin : ℤ, p.sector bin = (AmrFramework.clamp bin 0 (p.binCount - 1)).toNat :=
    fun _ => rfl
  have hbefore : p.sector (b + -1) = b - 1 := by
    rw [hsector, AmrFramework.clamp]
    split_ifs <;> omega
  have hself : p.sector (b + 0) = min b (p.binCount - 1) := by
    rw [hsector, AmrFramework.clamp]
    split_ifs <;> omega
  have hafter : p.sector (b + 1) = min (b + 1) (p.binCount - 1) := by
    rw [hsector, AmrFramework.clamp]
    split_ifs <;> omega
  simp only [VfhParams.gapPassableAt, hb, List.all_cons, List.all_nil, Bool.and_true,
    Bool.and_eq_true]
  rw [hbefore, hself, hafter, hat _ (by omega), hat _ (by omega), hat _ (by omega)]
  constructor
  · rintro ⟨h₁, h₂, h₃⟩ i hi hlo hhi
    obtain rfl | rfl | rfl : i = b - 1 ∨ i = min b (p.binCount - 1) ∨
        i = min (b + 1) (p.binCount - 1) := by omega
    · exact h₁
    · exact h₂
    · exact h₃
  · intro hall
    exact ⟨hall _ (by omega) (by omega) (by omega), hall _ (by omega) (by omega) (by omega),
      hall _ (by omega) (by omega) (by omega)⟩

/-- The angle is in a run of sectors, or at its edge. -/
def VfhParams.LiesIn (p : VfhParams ℝ) (run : ℕ × ℕ) (angle : ℝ) : Prop :=
  run.1 ≤ p.position angle ∧ p.position angle ≤ run.1 + run.2

/-- An angle in a maximal run is passable when the sectors that are looked at are all in
the run. The other sectors do not matter. -/
theorem VfhParams.LiesIn.gapPassableAt_iff {angle : ℝ} {run : ℕ × ℕ}
    (hlies : p.LiesIn run angle) (hlen : bins.length = p.binCount)
    (hrun : MaximalRun (bins.map p.passable) run.1 run.2) {b : ℕ} (hb : p.binOf angle = b) :
    p.gapPassableAt bins angle = true ↔
      ∀ i < p.binCount, b ≤ i + 1 → i ≤ b + 1 → run.1 ≤ i ∧ i < run.1 + run.2 := by
  have hend := hrun.le_length
  rw [List.length_map, hlen] at hend
  have hpos := hrun.pos
  have hbins : 0 < p.binCount := by omega
  have hfloor : ⌊p.position angle⌋ = (b : ℤ) := (binOf_eq_floor hbins angle).symm.trans hb
  obtain ⟨hb_le, hlt_b⟩ := Int.floor_eq_iff.mp hfloor
  push_cast at hb_le hlt_b
  have hlo : run.1 ≤ b := by
    have hreal : (run.1 : ℝ) < b + 1 := hlies.1.trans_lt hlt_b
    have hnat : run.1 < b + 1 := by exact_mod_cast hreal
    omega
  have hhi : b ≤ run.1 + run.2 := by
    have hreal : (b : ℝ) ≤ run.1 + run.2 := hb_le.trans hlies.2
    exact_mod_cast hreal
  rw [VfhParams.gapPassableAt_iff hbins hlen hb (hhi.trans hend)]
  constructor
  · intro hall
    -- the sectors are a block that meets the run
    have hblock : Block (bins.map p.passable) (b - 1) (min (b + 2) p.binCount - (b - 1)) := by
      intro j hj
      exact hall _ (by omega) (by omega) (by omega)
    have hmeet : run.1 ≤ min b (run.1 + run.2 - 1) ∧ b - 1 ≤ min b (run.1 + run.2 - 1) ∧
        min b (run.1 + run.2 - 1) < min (b + 2) p.binCount := by omega
    obtain ⟨hfrom, hto⟩ := hrun.block_le hblock hmeet.1 (by omega) hmeet.2.1 (by omega)
    intro i hi hbi hib
    omega
  · intro hall i hi hbi hib
    obtain ⟨hfrom, hto⟩ := hall i hi hbi hib
    exact hrun.block.get hfrom hto

/-- A fresh gap is passable at its center when it has four sectors, or ends with the last
one. -/
theorem VfhParams.passable_at_center_iff (hlen : bins.length = p.binCount) {run : ℕ × ℕ}
    (hrun : run ∈ p.gaps bins) :
    p.LiesIn run (p.gapCenter run) ∧ (p.gapPassableAt bins (p.gapCenter run) = true ↔
      4 ≤ run.2 ∨ run.1 + run.2 = p.binCount) := by
  obtain ⟨hmax, -⟩ := mem_gaps.mp hrun
  have hpos := hmax.pos
  have hend := hmax.le_length
  rw [List.length_map, hlen] at hend
  have hbins : 0 < p.binCount := by omega
  have hposition := (gapCenter_of_le hbins hpos hend).2
  have hone : (1 : ℝ) ≤ run.2 := by exact_mod_cast hpos
  have hlies : p.LiesIn run (p.gapCenter run) := by
    rw [VfhParams.LiesIn, hposition]
    constructor <;> linarith
  obtain ⟨b, hhalf⟩ : ∃ b, b = run.1 + (run.2 + 1) / 2 := ⟨_, rfl⟩
  have hb : p.binOf (p.gapCenter run) = b := by
    have hnat : 2 * b ≤ 2 * run.1 + run.2 + 1 ∧ 2 * run.1 + run.2 + 1 < 2 * b + 2 := by omega
    have hlo : (2 : ℝ) * b ≤ 2 * run.1 + run.2 + 1 := by exact_mod_cast hnat.1
    have hhi : (2 : ℝ) * run.1 + run.2 + 1 < 2 * b + 2 := by exact_mod_cast hnat.2
    rw [binOf_eq_floor hbins, hposition, Int.floor_eq_iff]
    push_cast
    constructor <;> linarith
  refine ⟨hlies, (hlies.gapPassableAt_iff hlen hmax hb).trans ?_⟩
  constructor
  · intro hall
    -- in a run of three sectors the one behind its end is looked at, too
    by_contra hnarrow
    have hnext := hall (run.1 + run.2) (by omega) (by omega) (by omega)
    omega
  · intro hwide i hi hbi hib
    omega

/-! ## A sequence of calls

The memory is written by the calls that act and by no others. So the gap that a call finds is the
one that the last call before it that acted has chosen. -/

/-- The memory after some calls. -/
noncomputable def VfhParams.recall (p : VfhParams ℝ) (memory : Option ℝ)
    (requests : List (SteerRequest ℝ)) : Option ℝ :=
  requests.foldl (fun memory q => (p.steer memory q.scan q.goalAngle q.cmdV).2) memory

/-- Calls that do not act keep the memory. -/
theorem VfhParams.recall_of_idle (memory : Option ℝ) {requests : List (SteerRequest ℝ)}
    (hidle : ∀ q ∈ requests, p.Idle q) : p.recall memory requests = memory := by
  induction requests with
  | nil => rfl
  | cons q requests ih =>
    rw [List.forall_mem_cons] at hidle
    rw [VfhParams.recall, List.foldl_cons, steer_of_idle hidle.1]
    exact ih hidle.2

/-- A chosen gap is one that the call held on to, or a fresh one. -/
theorem VfhParams.chosen_cases {memory : Option ℝ} {q : SteerRequest ℝ} {c : ℝ}
    (hgate : ¬ p.Idle q) (hchosen : (p.steer memory q.scan q.goalAngle q.cmdV).2 = some c) :
    p.gapPassableAt (p.histogram q.scan) c = true ∨
      ∃ run ∈ p.gaps (p.histogram q.scan), c = p.gapCenter run := by
  rw [steer_of_not_idle hgate] at hchosen
  rcases p.bestGapCenter_cases (p.histogram q.scan) q.goalAngle with
    ⟨-, hbest⟩ | ⟨run, hrun, hbest, -⟩
  · rw [hbest] at hchosen
    cases hchosen
  · rw [hbest] at hchosen
    obtain hc : p.chooseGap (p.histogram q.scan) memory (p.gapCenter run) = c :=
      Option.some.inj hchosen
    cases memory with
    | none => exact .inr ⟨run, hrun, hc.symm⟩
    | some last =>
      simp only [VfhParams.chooseGap] at hc
      split_ifs at hc with hpassable
      · exact .inl (hc ▸ hpassable)
      · exact .inr ⟨run, hrun, hc.symm⟩

/-- The gap that is chosen is passable at its center, if it has four sectors or ends with
the last one. -/
theorem VfhParams.chosen_passable {memory : Option ℝ} {q : SteerRequest ℝ} {c : ℝ} {run : ℕ × ℕ}
    (hgate : ¬ p.Idle q) (hchosen : (p.steer memory q.scan q.goalAngle q.cmdV).2 = some c)
    (hrun : run ∈ p.gaps (p.histogram q.scan)) (hlies : p.LiesIn run c)
    (hwide : 4 ≤ run.2 ∨ run.1 + run.2 = p.binCount) :
    p.gapPassableAt (p.histogram q.scan) c = true := by
  have hlen := p.length_histogram q.scan
  rcases chosen_cases hgate hchosen with hpassable | ⟨run', hrun', rfl⟩
  · exact hpassable
  · obtain ⟨hlies', hiff⟩ := passable_at_center_iff hlen hrun'
    -- the center lies in both runs, so they are the same
    have hsame : run.1 = run'.1 ∧ run.2 = run'.2 := by
      rcases (mem_gaps.mp hrun).1.separated (mem_gaps.mp hrun').1 with hsame | hlt | hlt
      · exact hsame
      · have hreal : (run.1 : ℝ) + run.2 < run'.1 := by exact_mod_cast hlt
        linarith [hlies.2, hlies'.1]
      · have hreal : (run'.1 : ℝ) + run'.2 < run.1 := by exact_mod_cast hlt
        linarith [hlies.1, hlies'.2]
    rw [hiff, ← hsame.1, ← hsame.2]
    exact hwide

/-- A gap that is still there is passable at an angle if it was. -/
theorem VfhParams.LiesIn.still_passable_iff {scan scan' : ScanData ℝ} {run : ℕ × ℕ} {c : ℝ}
    (hlies : p.LiesIn run c) (hrun : run ∈ p.gaps (p.histogram scan))
    (hrun' : run ∈ p.gaps (p.histogram scan')) :
    p.gapPassableAt (p.histogram scan') c = true ↔ p.gapPassableAt (p.histogram scan) c = true := by
  obtain ⟨hmax, -⟩ := mem_gaps.mp hrun
  obtain ⟨hmax', -⟩ := mem_gaps.mp hrun'
  have hbins : 0 < p.binCount := by
    have hend := hmax.le_length
    have hpos := hmax.pos
    rw [List.length_map, length_histogram] at hend
    omega
  obtain ⟨b, hb⟩ : ∃ b : ℕ, p.binOf c = b := by
    rw [binOf_eq_floor hbins]
    exact Int.eq_ofNat_of_zero_le (Int.floor_nonneg.mpr (position_pos hbins c).le)
  rw [hlies.gapPassableAt_iff (p.length_histogram _) hmax hb,
    hlies.gapPassableAt_iff (p.length_histogram _) hmax' hb]

/-- The memory of a chosen gap, after calls that do not act. -/
theorem VfhParams.recall_chosen {memory : Option ℝ} {before between : List (SteerRequest ℝ)}
    {q : SteerRequest ℝ} {c : ℝ}
    (hchosen : (p.steer (p.recall memory before) q.scan q.goalAngle q.cmdV).2 = some c)
    (hidle : ∀ r ∈ between, p.Idle r) :
    p.recall memory (before ++ q :: between) = some c := by
  have hrecall := recall_of_idle (some c) hidle
  rw [VfhParams.recall, List.foldl_append, List.foldl_cons]
  rw [VfhParams.recall] at hchosen hrecall
  rw [hchosen, hrecall]

/-- What a call answers when it remembers a gap that is passable. -/
theorem VfhParams.steer_held {q : SteerRequest ℝ} {c : ℝ} {run : ℕ × ℕ} (hgate : ¬ p.Idle q)
    (hrun : run ∈ p.gaps (p.histogram q.scan))
    (hpassable : p.gapPassableAt (p.histogram q.scan) c = true) :
    p.steer (some c) q.scan q.goalAngle q.cmdV =
      (⟨AmrFramework.clamp (2.0 * c) (-p.maxSteering) p.maxSteering, false⟩, some c) := by
  rw [steer_of_not_idle hgate]
  cases hbest : p.bestGapCenter (p.histogram q.scan) q.goalAngle with
  | none =>
    rw [bestGapCenter_eq_none.mp hbest] at hrun
    cases hrun
  | some fresh =>
    have hkeep : p.chooseGap (p.histogram q.scan) (some c) fresh = c := if_pos hpassable
    simp only [hkeep]

/-- A gap that is not passable is given up for the fresh one. -/
theorem VfhParams.steer_given_up {q : SteerRequest ℝ} {c : ℝ} (hgate : ¬ p.Idle q)
    (hblocked : p.gapPassableAt (p.histogram q.scan) c ≠ true) :
    (p.steer (some c) q.scan q.goalAngle q.cmdV).2 =
      p.bestGapCenter (p.histogram q.scan) q.goalAngle := by
  rw [steer_of_not_idle hgate]
  cases p.bestGapCenter (p.histogram q.scan) q.goalAngle with
  | none => rfl
  | some fresh => exact congrArg some (if_neg hblocked)

/-- **Holding on to a gap**, in every sequence of calls: a call that chose a gap is followed by
calls that do not act, and by one that does, where the gap is still there. If the gap has four
sectors, or ends with the last one, or was passable at its center when it was chosen, then its
center is chosen again.

In each of the three cases the sectors around the center are all in the run
(`passable_at_center_iff`), and a run that is still there is passable at the same angles as
before (`LiesIn.still_passable_iff`), whatever became of the other sectors. -/
theorem VfhParams.gap_held (memory : Option ℝ) (before between : List (SteerRequest ℝ))
    {q q' : SteerRequest ℝ} {c : ℝ} {run : ℕ × ℕ} (hgate : ¬ p.Idle q)
    (hchosen : (p.steer (p.recall memory before) q.scan q.goalAngle q.cmdV).2 = some c)
    (hrun : run ∈ p.gaps (p.histogram q.scan)) (hlies : p.LiesIn run c)
    (hidle : ∀ r ∈ between, p.Idle r) (hgate' : ¬ p.Idle q')
    (hrun' : run ∈ p.gaps (p.histogram q'.scan))
    (hwide : 4 ≤ run.2 ∨ run.1 + run.2 = p.binCount ∨
      p.gapPassableAt (p.histogram q.scan) c = true) :
    p.steer (p.recall memory (before ++ q :: between)) q'.scan q'.goalAngle q'.cmdV =
      (⟨AmrFramework.clamp (2.0 * c) (-p.maxSteering) p.maxSteering, false⟩, some c) := by
  have hpassable : p.gapPassableAt (p.histogram q.scan) c = true := by
    rcases hwide with hwide | hwide | hpassable
    · exact chosen_passable hgate hchosen hrun hlies (.inl hwide)
    · exact chosen_passable hgate hchosen hrun hlies (.inr hwide)
    · exact hpassable
  rw [recall_chosen hchosen hidle]
  exact steer_held hgate' hrun' ((hlies.still_passable_iff hrun hrun').mpr hpassable)

/-- Any other gap is given up: the next call that acts takes the fresh one. -/
theorem VfhParams.gap_given_up (memory : Option ℝ) (before between : List (SteerRequest ℝ))
    {q q' : SteerRequest ℝ} {c : ℝ} {run : ℕ × ℕ}
    (hchosen : (p.steer (p.recall memory before) q.scan q.goalAngle q.cmdV).2 = some c)
    (hrun : run ∈ p.gaps (p.histogram q.scan)) (hlies : p.LiesIn run c)
    (hidle : ∀ r ∈ between, p.Idle r) (hgate' : ¬ p.Idle q')
    (hrun' : run ∈ p.gaps (p.histogram q'.scan))
    (hblocked : p.gapPassableAt (p.histogram q.scan) c ≠ true) :
    (p.steer (p.recall memory (before ++ q :: between)) q'.scan q'.goalAngle q'.cmdV).2 =
      p.bestGapCenter (p.histogram q'.scan) q'.goalAngle := by
  rw [recall_chosen hchosen hidle]
  exact steer_given_up hgate' (mt (hlies.still_passable_iff hrun hrun').mp hblocked)

/-! ## Two posts

Three sectors between two posts: the shortest gap that the defaults allow, and the first of the
two calls below chooses it. -/

/-- Two obstacles at 0.4 m, with three sectors between them. -/
noncomputable def twoPosts : ScanData ℝ where
  ranges := [some 0.4, some 0.4]
  angleMin := 0.26
  angleIncrement := 0.42

/-- Both posts are seen. -/
theorem echoes_twoPosts : twoPosts.echoes = [(0.4, 0.26), (0.4, 0.68)] := by
  have hbeams : twoPosts.beams = [(0.4, 0.26), (0.4, 0.68)] := by
    have hangle : (0.26 : ℝ) + 0.42 = 0.68 := by norm_num
    simp [ScanData.beams, twoPosts, hangle]
  rw [ScanData.echoes, hbeams]
  norm_num [List.filter_cons]

/-- The runs on both sides of them and the one between. -/
theorem gaps_twoPosts :
    ({} : VfhParams ℝ).gaps (({} : VfhParams ℝ).histogram twoPosts) =
      [(0, 32), (33, 3), (37, 23)] := by
  have hpi := Real.pi_gt_d2
  have hpi' := Real.pi_lt_d2
  have hsector : ∀ {angle : ℝ} {n : ℕ}, ({} : VfhParams ℝ).binOf angle = n → n < 60 →
      ({} : VfhParams ℝ).sector (({} : VfhParams ℝ).binOf angle) = n := by
    intro angle n hbin hn
    rw [hbin, VfhParams.sector_natCast hn]
  have hright : ({} : VfhParams ℝ).sector (({} : VfhParams ℝ).binOf 0.26) = 32 :=
    hsector (binOf_eq (n := 32) ⟨by linarith, by linarith⟩ (by push_cast; linarith)
      (by push_cast; linarith)) (by decide)
  have hleft : ({} : VfhParams ℝ).sector (({} : VfhParams ℝ).binOf 0.68) = 36 :=
    hsector (binOf_eq (n := 36) ⟨by linarith, by linarith⟩ (by push_cast; linarith)
      (by push_cast; linarith)) (by decide)
  have hpassable : (({} : VfhParams ℝ).histogram twoPosts).map ({} : VfhParams ℝ).passable =
      ((List.replicate 60 true).set 32 false).set 36 false := by
    refine ext_true (by simp) fun s hs => ?_
    rw [VfhParams.histogram_passable, echoes_twoPosts]
    simp only [List.forall_mem_cons, hright, hleft, List.getElem?_set, List.getElem?_replicate]
    norm_num
    grind
  rw [VfhParams.gaps, hpassable]
  decide

/-- How far the gaps are from a goal bearing ahead. -/
theorem scores_twoPosts (goalAngle : ℝ) (hlo : -0.5 ≤ goalAngle) (hhi : goalAngle ≤ 1.3) :
    ({} : VfhParams ℝ).score goalAngle (0, 32) = |-9 / 20 * Real.pi - goalAngle| ∧
      ({} : VfhParams ℝ).score goalAngle (33, 3) = |1 / 6 * Real.pi - goalAngle| ∧
      ({} : VfhParams ℝ).score goalAngle (37, 23) = |19 / 30 * Real.pi - goalAngle| := by
  have hpi := Real.pi_gt_d2
  have hscore : ∀ {run : ℕ × ℕ} {c : ℝ}, -0.5 ≤ c → c ≤ 0.65 →
      ((run.1 : ℝ) + run.2 / 2 + 1 / 2) / 30 - 1 = c →
      ({} : VfhParams ℝ).score goalAngle run = |c * Real.pi - goalAngle| := by
    intro run c hc hc' hrun
    rw [VfhParams.score, gapCenter_eq (by linarith) (by linarith) hrun,
      wrap_of_mem ⟨by nlinarith, by nlinarith⟩]
  exact ⟨hscore (by norm_num) (by norm_num) (by norm_num),
    hscore (by norm_num) (by norm_num) (by norm_num),
    hscore (by norm_num) (by norm_num) (by norm_num)⟩

/-- The posts are near a goal bearing that is not too far from them. -/
theorem engaged_twoPosts {goalAngle : ℝ} (hlo : -0.5 ≤ goalAngle) (hhi : goalAngle ≤ 1.3) :
    ¬ ({} : VfhParams ℝ).Idle ⟨twoPosts, goalAngle, 0.5⟩ := by
  have hpi := Real.pi_gt_d2
  refine not_or.mpr ⟨by norm_num, not_not.mpr (VfhParams.engaged_iff.mpr ?_)⟩
  rw [echoes_twoPosts]
  obtain hle | hle := le_total goalAngle 0.5
  · refine ⟨(0.4, 0.26), by simp, ?_, by norm_num⟩
    rw [wrap_of_mem ⟨by linarith, by linarith⟩, abs_le]
    constructor <;> linarith
  · refine ⟨(0.4, 0.68), by simp, ?_, by norm_num⟩
    rw [wrap_of_mem ⟨by linarith, by linarith⟩, abs_le]
    constructor <;> linarith

/-- The one gap that is closest is chosen. -/
theorem bestGapCenter_of_lt {p : VfhParams ℝ} {bins : List (Option ℝ)} {goalAngle : ℝ}
    {run : ℕ × ℕ} (hrun : run ∈ p.gaps bins)
    (hlt : ∀ run' ∈ p.gaps bins, run' ≠ run → p.score goalAngle run < p.score goalAngle run') :
    p.bestGapCenter bins goalAngle = some (p.gapCenter run) := by
  rcases p.bestGapCenter_cases bins goalAngle with ⟨hnone, -⟩ | ⟨run', hrun', hbest, hle⟩
  · rw [hnone] at hrun
    cases hrun
  · by_cases hsame : run' = run
    · rw [hbest, hsame]
    · exact absurd (hlt run' hrun' hsame) (not_lt.mpr (hle run hrun))

/-- The one that is closest of the three gaps is chosen. -/
theorem best_twoPosts {goalAngle : ℝ} {run : ℕ × ℕ} (hrun : run ∈ [(0, 32), (33, 3), (37, 23)])
    (hlt : ∀ run' ∈ [(0, 32), (33, 3), (37, 23)], run' ≠ run →
      ({} : VfhParams ℝ).score goalAngle run < ({} : VfhParams ℝ).score goalAngle run') :
    ({} : VfhParams ℝ).bestGapCenter (({} : VfhParams ℝ).histogram twoPosts) goalAngle =
      some (({} : VfhParams ℝ).gapCenter run) := by
  rw [← gaps_twoPosts] at hrun hlt
  exact bestGapCenter_of_lt hrun hlt

/-- With the goal bearing between the posts, the gap between them is the fresh one. -/
theorem best_between :
    ({} : VfhParams ℝ).bestGapCenter (({} : VfhParams ℝ).histogram twoPosts) 0.5 =
      some (({} : VfhParams ℝ).gapCenter (33, 3)) := by
  have hpi := Real.pi_gt_d2
  obtain ⟨hright, hbetween, hleft⟩ := scores_twoPosts 0.5 (by norm_num) (by norm_num)
  rw [abs_of_neg (by linarith)] at hright
  rw [abs_of_pos (by linarith)] at hbetween hleft
  refine best_twoPosts (by decide) ?_
  simp only [List.forall_mem_cons, List.not_mem_nil, false_imp_iff, implies_true, and_true]
  exact ⟨fun _ => by linarith, fun hne => absurd rfl hne, fun _ => by linarith⟩

/-- With the goal bearing to the right of the posts, it is the gap on the right. -/
theorem best_right :
    ({} : VfhParams ℝ).bestGapCenter (({} : VfhParams ℝ).histogram twoPosts) (-0.5) =
      some (({} : VfhParams ℝ).gapCenter (0, 32)) := by
  have hpi := Real.pi_gt_d2
  have hpi' := Real.pi_lt_d2
  obtain ⟨hright, hbetween, hleft⟩ := scores_twoPosts (-0.5) (by norm_num) (by norm_num)
  rw [abs_of_neg (by linarith)] at hright
  rw [abs_of_pos (by linarith)] at hbetween hleft
  refine best_twoPosts (by decide) ?_
  simp only [List.forall_mem_cons, List.not_mem_nil, false_imp_iff, implies_true, and_true]
  exact ⟨fun hne => absurd rfl hne, fun _ => by linarith, fun _ => by linarith⟩

/-- With the goal bearing to the left, it is the gap on the left. -/
theorem best_left :
    ({} : VfhParams ℝ).bestGapCenter (({} : VfhParams ℝ).histogram twoPosts) 1.3 =
      some (({} : VfhParams ℝ).gapCenter (37, 23)) := by
  have hpi := Real.pi_gt_d2
  have hpi' := Real.pi_lt_d2
  obtain ⟨hright, hbetween, hleft⟩ := scores_twoPosts 1.3 (by norm_num) (by norm_num)
  rw [abs_of_neg (by linarith)] at hright hbetween
  rw [abs_of_pos (by linarith)] at hleft
  refine best_twoPosts (by decide) ?_
  simp only [List.forall_mem_cons, List.not_mem_nil, false_imp_iff, implies_true, and_true]
  exact ⟨fun _ => by linarith, fun _ => by linarith, fun hne => absurd rfl hne⟩

/-- Without a memory the fresh gap is chosen. -/
theorem steer_fresh {p : VfhParams ℝ} {q : SteerRequest ℝ} (hgate : ¬ p.Idle q) :
    (p.steer none q.scan q.goalAngle q.cmdV).2 =
      p.bestGapCenter (p.histogram q.scan) q.goalAngle := by
  rw [VfhParams.steer_of_not_idle hgate]
  cases p.bestGapCenter (p.histogram q.scan) q.goalAngle <;> rfl

/-- The gap on the left ends with the last sector. It is kept when the goal bearing moves. -/
theorem gap_held_left :
    ({} : VfhParams ℝ).steer (({} : VfhParams ℝ).recall none ([] ++ ⟨twoPosts, 1.3, 0.5⟩ :: []))
        twoPosts 0.5 0.5 =
      (⟨AmrFramework.clamp (2.0 * ({} : VfhParams ℝ).gapCenter (37, 23)) (-1.5) 1.5, false⟩,
        some (({} : VfhParams ℝ).gapCenter (37, 23))) := by
  have hgate : ¬ ({} : VfhParams ℝ).Idle ⟨twoPosts, 1.3, 0.5⟩ :=
    engaged_twoPosts (by norm_num) le_rfl
  have hgate' : ¬ ({} : VfhParams ℝ).Idle ⟨twoPosts, 0.5, 0.5⟩ :=
    engaged_twoPosts (by norm_num) (by norm_num)
  have hrun : (37, 23) ∈ ({} : VfhParams ℝ).gaps (({} : VfhParams ℝ).histogram twoPosts) := by
    rw [gaps_twoPosts]
    decide
  have hlen := ({} : VfhParams ℝ).length_histogram twoPosts
  exact VfhParams.gap_held none [] [] hgate ((steer_fresh hgate).trans best_left) hrun
    (VfhParams.passable_at_center_iff hlen hrun).1 (by simp) hgate' hrun (.inr (.inl rfl))

/-- The gap between the posts is given up when the goal bearing moves. -/
theorem gap_not_held :
    ∃ q q' : SteerRequest ℝ, ∃ c run, ¬ ({} : VfhParams ℝ).Idle q ∧
      (({} : VfhParams ℝ).steer none q.scan q.goalAngle q.cmdV).2 = some c ∧
      run ∈ ({} : VfhParams ℝ).gaps (({} : VfhParams ℝ).histogram q.scan) ∧
      ({} : VfhParams ℝ).LiesIn run c ∧ ¬ ({} : VfhParams ℝ).Idle q' ∧
      run ∈ ({} : VfhParams ℝ).gaps (({} : VfhParams ℝ).histogram q'.scan) ∧
      (({} : VfhParams ℝ).steer (({} : VfhParams ℝ).recall none [q]) q'.scan q'.goalAngle
        q'.cmdV).2 ≠ some c := by
  have hgate : ¬ ({} : VfhParams ℝ).Idle ⟨twoPosts, 0.5, 0.5⟩ :=
    engaged_twoPosts (by norm_num) (by norm_num)
  have hgate' : ¬ ({} : VfhParams ℝ).Idle ⟨twoPosts, -0.5, 0.5⟩ :=
    engaged_twoPosts le_rfl (by norm_num)
  have hrun : (33, 3) ∈ ({} : VfhParams ℝ).gaps (({} : VfhParams ℝ).histogram twoPosts) := by
    rw [gaps_twoPosts]
    decide
  obtain ⟨hlies, hpassable⟩ := VfhParams.passable_at_center_iff
    (({} : VfhParams ℝ).length_histogram twoPosts) hrun
  have hchosen := (steer_fresh hgate).trans best_between
  refine ⟨⟨twoPosts, 0.5, 0.5⟩, ⟨twoPosts, -0.5, 0.5⟩, _, (33, 3), hgate, hchosen, hrun, hlies,
    hgate', hrun, ?_⟩
  rw [show ({} : VfhParams ℝ).recall none [⟨twoPosts, 0.5, 0.5⟩] = _ from hchosen,
    VfhParams.steer_given_up hgate' (by rw [Ne, hpassable]; decide), best_right,
    gapCenter_eq (c := -9 / 20) (by norm_num) (by norm_num) (by norm_num),
    gapCenter_eq (c := 1 / 6) (by norm_num) (by norm_num) (by norm_num), Ne, Option.some.injEq,
    mul_left_inj' Real.pi_ne_zero]
  norm_num

end AmrFramework.Execution
