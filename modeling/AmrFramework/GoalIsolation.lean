import AmrFramework.GapHold

/-!
# Goals and the remembered gap

`execute` resets the tracker and the guard when a goal begins, but it never calls
`VfhAvoidance::reset`. So the first round of a goal in which the avoidance acts may find the
gap of an earlier goal, and keep to it. What this does to two executions is decided in that
round: either they go on with gaps that `steer` will never tell apart, or something that the
robot may see next does.

* `VfhParams.IsolatedBy` — the condition, on the memories and on that one round.
* `VfhParams.answers_isolated` — it is enough.
* `VfhParams.exists_telling` — gaps in two sectors are told apart by a post in one sector.
* `goals_isolated` — both, for two nodes with any past.
-/

namespace AmrFramework.Execution

open Runs

universe u

/-! ## The condition

A remembered gap is used in two ways: for the sectors that `gap_passable_at` looks at, and for
the turn. Gaps in the same sector agree in the first. In the second they agree when they are the
same, or when the limit of the steering hides the difference. -/

section Isolated

variable {K : Type u} [Field K] [LinearOrder K] [CMath K] [FloorRing K]

/-- Two gaps are in the same sector, and turn the robot alike. -/
def VfhParams.Interchangeable (p : VfhParams K) (gap₁ gap₂ : K) : Prop :=
  p.binOf gap₁ = p.binOf gap₂ ∧ p.SameTurn gap₁ gap₂

/-- The remembered gap, if it is still passable. -/
def VfhParams.remembered (p : VfhParams K) (memory : Option K) (q : SteerRequest K) : Option K :=
  memory.filter (p.gapPassableAt (p.histogram q.scan))

/-- In a round in which the avoidance acts: if there is a gap, then the gaps that are
remembered, or the fresh one where none is, are interchangeable. -/
def VfhParams.IsolatedAt (p : VfhParams K) (memory₁ memory₂ : Option K) (q : SteerRequest K) :
    Prop :=
  ∀ fresh, p.bestGapCenter (p.histogram q.scan) q.goalAngle = some fresh →
    p.Interchangeable ((p.remembered memory₁ q).getD fresh) ((p.remembered memory₂ q).getD fresh)

/-- The first round in which the avoidance acts isolates the goal from both memories. -/
def VfhParams.IsolatedBy (p : VfhParams K) (memory₁ memory₂ : Option K)
    (requests : List (SteerRequest K)) : Prop :=
  ∀ q, requests.find? (fun q => ¬ p.Idle q) = some q → p.IsolatedAt memory₁ memory₂ q

variable {p : VfhParams K} {memory₁ memory₂ : Option K}

/-- Every gap can take its own place. -/
theorem VfhParams.Interchangeable.refl (gap : K) : p.Interchangeable gap gap := ⟨rfl, .inl rfl⟩

/-- Gaps in one sector are passable together, -/
theorem VfhParams.Interchangeable.gapPassableAt_eq {gap₁ gap₂ : K}
    (h : p.Interchangeable gap₁ gap₂) (bins : List (Option K)) :
    p.gapPassableAt bins gap₁ = p.gapPassableAt bins gap₂ := by
  simp only [VfhParams.gapPassableAt, h.1]

/-- and what is chosen is the remembered gap, or the fresh one. -/
theorem VfhParams.chooseGap_eq (p : VfhParams K) (memory : Option K) (q : SteerRequest K)
    (fresh : K) :
    p.chooseGap (p.histogram q.scan) memory fresh = (p.remembered memory q).getD fresh := by
  cases memory with
  | none => rfl
  | some last =>
    rw [VfhParams.chooseGap, VfhParams.remembered, Option.filter_some]
    split_ifs <;> rfl

/-- The condition looks past the rounds in which nothing is done. -/
theorem VfhParams.isolatedBy_cons (q : SteerRequest K) (requests : List (SteerRequest K)) :
    p.IsolatedBy memory₁ memory₂ (q :: requests) ↔
      if p.Idle q then p.IsolatedBy memory₁ memory₂ requests
      else p.IsolatedAt memory₁ memory₂ q := by
  by_cases hidle : p.Idle q
  · simp [VfhParams.IsolatedBy, hidle]
  · simp [VfhParams.IsolatedBy, hidle]

/-- Interchangeable memories are isolated from each other in every round. -/
theorem VfhParams.isolatedAt_of_rel (h : Option.Rel p.Interchangeable memory₁ memory₂)
    (q : SteerRequest K) : p.IsolatedAt memory₁ memory₂ q := by
  intro fresh _
  cases h with
  | none => exact .refl fresh
  | some h =>
    simp only [VfhParams.remembered, Option.filter_some, h.gapPassableAt_eq]
    split_ifs
    · exact h
    · exact .refl fresh

/-! ## Enough

By induction on the rounds. Rounds in which the avoidance does nothing leave both memories as
they are; the first one in which it acts makes them interchangeable, and they stay so. -/

variable [IsStrictOrderedRing K]

/-- A round that isolates gives the same answer, and leaves interchangeable memories. -/
theorem VfhParams.steer_isolatedAt (hp : 0 < p.maxSteering) {q : SteerRequest K}
    (hacts : ¬ p.Idle q) (h : p.IsolatedAt memory₁ memory₂ q) :
    let answer := fun memory => p.steer memory q.scan q.goalAngle q.cmdV
    (answer memory₁).1 = (answer memory₂).1 ∧
      Option.Rel p.Interchangeable (answer memory₁).2 (answer memory₂).2 := by
  simp only [VfhParams.steer_of_not_idle hacts, VfhParams.chooseGap_eq]
  cases hbest : p.bestGapCenter (p.histogram q.scan) q.goalAngle with
  | none => exact ⟨rfl, .none⟩
  | some fresh =>
    have hgaps := h fresh hbest
    exact ⟨congrArg (SteerResult.mk · false) ((VfhParams.clamp_eq_iff_sameTurn hp _ _).mpr hgaps.2),
      .some hgaps⟩

/-- Interchangeable memories give the same answers. -/
theorem VfhParams.answers_of_rel (hp : 0 < p.maxSteering)
    (h : Option.Rel p.Interchangeable memory₁ memory₂) (requests : List (SteerRequest K)) :
    p.answers memory₁ requests = p.answers memory₂ requests := by
  induction requests generalizing memory₁ memory₂ with
  | nil => rfl
  | cons q requests ih =>
    by_cases hidle : p.Idle q
    · simp only [VfhParams.answers, VfhParams.steer_of_idle hidle, ih h]
    · obtain ⟨hanswer, hmemory⟩ :=
        VfhParams.steer_isolatedAt hp hidle (VfhParams.isolatedAt_of_rel h q)
      simp only [VfhParams.answers, ih hmemory]
      exact congrArg (· :: _) hanswer

/-- Two memories give the same answers when the first round that acts isolates. -/
theorem VfhParams.answers_isolated (hp : 0 < p.maxSteering) {requests : List (SteerRequest K)}
    (h : p.IsolatedBy memory₁ memory₂ requests) :
    p.answers memory₁ requests = p.answers memory₂ requests := by
  induction requests with
  | nil => rfl
  | cons q requests ih =>
    rw [VfhParams.isolatedBy_cons] at h
    split_ifs at h with hidle
    · simp only [VfhParams.answers, VfhParams.steer_of_idle hidle, ih h]
    · obtain ⟨hanswer, hmemory⟩ := VfhParams.steer_isolatedAt hp hidle h
      simp only [VfhParams.answers, VfhParams.answers_of_rel hp hmemory]
      exact congrArg (· :: _) hanswer

end Isolated

/-! ## Necessary

Let two gaps lie in different sectors. Some sector `s` is looked at for one of them and not for
the other. A post in `s`, and another echo in the direction of the goal that is near enough to
act and too far to close a sector, make the avoidance give up the one gap and keep the other. The
goal is put where the fresh gap is, so that the fresh gap does not reach the limit that hides the
difference. -/

/-- The middle of a sector. -/
noncomputable def sectorMiddle (s : ℕ) : ℝ :=
  -Real.pi + (s + 1 / 2) * ({} : VfhParams ℝ).binWidth

/-- A post in a sector, and an echo at a meter in the direction of the goal. -/
noncomputable def onePost (s : ℕ) (goalAngle : ℝ) : SteerRequest ℝ where
  scan := { ranges := [some 0.4, some 1], angleMin := sectorMiddle s,
            angleIncrement := goalAngle - sectorMiddle s }
  goalAngle := goalAngle
  cmdV := 0.5

theorem echoes_onePost (s : ℕ) (goalAngle : ℝ) :
    (onePost s goalAngle).scan.echoes = [(0.4, sectorMiddle s), (1, goalAngle)] := by
  have hbeams : (onePost s goalAngle).scan.beams = [(0.4, sectorMiddle s), (1, goalAngle)] := by
    simp [ScanData.beams, onePost]
  rw [ScanData.echoes, hbeams]
  norm_num [List.filter_cons]

theorem onePost_acts (s : ℕ) (goalAngle : ℝ) :
    ¬ ({} : VfhParams ℝ).Idle (onePost s goalAngle) := by
  refine not_or.mpr ⟨by norm_num [onePost], not_not.mpr (VfhParams.engaged_iff.mpr ?_)⟩
  refine ⟨(1, goalAngle), by simp [echoes_onePost], ?_, by norm_num⟩
  have hahead : wrap (goalAngle - goalAngle) = 0 := by
    rw [sub_self]
    exact wrap_of_mem ⟨by linarith [Real.pi_pos], Real.pi_pos.le⟩
  change |wrap (goalAngle - goalAngle)| ≤ 0.7854
  rw [hahead, abs_zero]
  norm_num

/-- Only the sector of the post is closed. -/
theorem passable_onePost {s : ℕ} (hs : s < 60) (goalAngle : ℝ) {i : ℕ} :
    ((({} : VfhParams ℝ).histogram (onePost s goalAngle).scan).map
        ({} : VfhParams ℝ).passable)[i]? = some true ↔ i < 60 ∧ i ≠ s := by
  have hreal : (s : ℝ) + 1 ≤ 60 := by exact_mod_cast hs
  have hpost : ({} : VfhParams ℝ).sector (({} : VfhParams ℝ).binOf (sectorMiddle s)) = s := by
    obtain ⟨-, hposition⟩ := VfhParams.position_angle (p := {}) (x := s + 1 / 2) (by norm_num)
      (by positivity) (by norm_num; linarith)
    refine VfhParams.sector_binOf hs ?_ ?_
    · rw [sectorMiddle, hposition]
      linarith
    · rw [sectorMiddle, hposition]
      linarith
  rw [VfhParams.histogram_passable, echoes_onePost]
  simp only [List.forall_mem_cons, List.not_mem_nil, false_imp_iff, implies_true, and_true, hpost]
  norm_num
  exact fun _ => ⟨fun hne heq => hne heq.symm, fun hne heq => hne heq.symm⟩

/-- Which gaps it keeps. -/
theorem gapPassableAt_onePost {s : ℕ} (hs : s < 60) (goalAngle : ℝ) {gap : ℝ} {b : ℕ}
    (hb : ({} : VfhParams ℝ).binOf gap = b) (hle : b ≤ 60) :
    ({} : VfhParams ℝ).gapPassableAt (({} : VfhParams ℝ).histogram (onePost s goalAngle).scan) gap
        = true ↔ ¬ (b ≤ s + 1 ∧ s ≤ b + 1) := by
  rw [VfhParams.gapPassableAt_iff (by norm_num) (VfhParams.length_histogram _ _) hb hle]
  constructor
  · rintro hall ⟨hlo, hhi⟩
    exact ((passable_onePost hs goalAngle).mp (hall s hs hlo hhi)).2 rfl
  · intro hfar i hi hlo hhi
    exact (passable_onePost hs goalAngle).mpr ⟨hi, by omega⟩

/-- On both sides of the post there is a run of passable sectors. -/
theorem mem_gaps_onePost {s : ℕ} (hs : s < 60) (goalAngle : ℝ) {run : ℕ × ℕ}
    (hrun : run = (0, s) ∨ run = (s + 1, 59 - s)) (hwide : 3 ≤ run.2) :
    run ∈ ({} : VfhParams ℝ).gaps (({} : VfhParams ℝ).histogram (onePost s goalAngle).scan) := by
  have hpassable := fun i => passable_onePost hs goalAngle (i := i)
  have hclosed : ((({} : VfhParams ℝ).histogram (onePost s goalAngle).scan).map
      ({} : VfhParams ℝ).passable)[s]? = some false := by
    obtain ⟨bit, hbit⟩ : ∃ bit, ((({} : VfhParams ℝ).histogram (onePost s goalAngle).scan).map
        ({} : VfhParams ℝ).passable)[s]? = some bit :=
      ⟨_, List.getElem?_eq_getElem (by simpa using hs)⟩
    cases bit with
    | false => exact hbit
    | true => exact absurd rfl ((hpassable s).mp hbit).2
  refine VfhParams.mem_gaps.mpr ⟨⟨by omega, ?_, ?_, ?_⟩, hwide⟩
  · intro j hj
    refine (hpassable _).mpr ?_
    rcases hrun with rfl | rfl
    · exact ⟨by omega, by omega⟩
    · exact ⟨by omega, by omega⟩
  · intro i hi
    rcases hrun with rfl | rfl
    · omega
    · obtain rfl : i = s := by omega
      exact hclosed
  · rw [ne_eq, hpassable]
    rcases hrun with rfl | rfl <;> omega

/-- The gap in the direction of the goal is the fresh one. -/
theorem bestGapCenter_ahead {bins : List (Option ℝ)} {p : VfhParams ℝ} {run : ℕ × ℕ}
    (hrun : run ∈ p.gaps bins) :
    p.bestGapCenter bins (p.gapCenter run) = some (p.gapCenter run) := by
  have hahead : p.score (p.gapCenter run) run = 0 := by
    rw [VfhParams.score, sub_self, wrap_of_mem ⟨by linarith [Real.pi_pos], Real.pi_pos.le⟩,
      abs_zero]
  rcases p.bestGapCenter_cases bins (p.gapCenter run) with ⟨hnone, -⟩ | ⟨run', -, hbest, hleast⟩
  · rw [hnone] at hrun
    cases hrun
  · have hzero : wrap (p.gapCenter run' - p.gapCenter run) = 0 :=
      abs_nonpos_iff.mp ((hleast run hrun).trans_eq hahead)
    -- two centers differ by less than a whole turn
    obtain ⟨m, hm⟩ := exists_wrap_eq (p.gapCenter run' - p.gapCenter run)
    obtain ⟨hlo, hhi⟩ := wrap_mem (-Real.pi + ((run.1 : ℝ) + run.2 / 2 + 1 / 2) * p.binWidth)
    obtain ⟨hlo', hhi'⟩ := wrap_mem (-Real.pi + ((run'.1 : ℝ) + run'.2 / 2 + 1 / 2) * p.binWidth)
    rw [← p.gapCenter_eq] at hlo hhi hlo' hhi'
    have hpi := Real.pi_pos
    have hone : (m : ℝ) < 1 := by nlinarith
    have hminus : (-1 : ℝ) < m := by nlinarith
    have hm0 : m = 0 := by
      have hlt : m < 1 := by exact_mod_cast hone
      have hgt : -1 < m := by exact_mod_cast hminus
      omega
    rw [hm0, Int.cast_zero, mul_zero, add_zero, hzero] at hm
    rw [hbest, sub_eq_zero.mp hm.symm]

/-- Beside a post there is a gap at which the steering does not reach the limit to the left, and
one at which it does not reach the limit to the right. -/
theorem exists_gap_onePost {s : ℕ} (hs : s < 60) :
    (∃ run : ℕ × ℕ, (run = (0, s) ∨ run = (s + 1, 59 - s)) ∧ 3 ≤ run.2 ∧
        2.0 * ({} : VfhParams ℝ).gapCenter run < 1.5) ∧
      ∃ run : ℕ × ℕ, (run = (0, s) ∨ run = (s + 1, 59 - s)) ∧ 3 ≤ run.2 ∧
        -1.5 < 2.0 * ({} : VfhParams ℝ).gapCenter run := by
  have hpi := Real.pi_gt_three
  have hpi' := Real.pi_lt_four
  have hwidth : ({} : VfhParams ℝ).binWidth = Real.pi / 30 := by
    rw [VfhParams.binWidth_eq]
    norm_num
    ring
  have hright : 0 < s → ({} : VfhParams ℝ).gapCenter (0, s) = ((s : ℝ) - 59) * (Real.pi / 60) := by
    intro hpos
    rw [(VfhParams.gapCenter_of_le (by norm_num) hpos (by simpa using hs.le)).1, hwidth]
    push_cast
    ring
  have hleft : s < 59 →
      ({} : VfhParams ℝ).gapCenter (s + 1, 59 - s) = ((s : ℝ) + 2) * (Real.pi / 60) := by
    intro hlt
    rw [(VfhParams.gapCenter_of_le (by norm_num) (by simp; omega) (by simp; omega)).1, hwidth]
    rw [Nat.cast_sub hlt.le]
    push_cast
    ring
  have hreal : (s : ℝ) ≤ 59 := by exact_mod_cast Nat.le_of_lt_succ hs
  constructor
  · by_cases hthree : 3 ≤ s
    · refine ⟨(0, s), .inl rfl, hthree, ?_⟩
      rw [hright (by omega)]
      nlinarith
    · have hfew : (s : ℝ) ≤ 2 := by exact_mod_cast (by omega : s ≤ 2)
      refine ⟨(s + 1, 59 - s), .inr rfl, by simp; omega, ?_⟩
      rw [hleft (by omega)]
      nlinarith
  · by_cases hlast : s ≤ 56
    · refine ⟨(s + 1, 59 - s), .inr rfl, by simp; omega, ?_⟩
      rw [hleft (by omega)]
      have hpos : 0 ≤ ((s : ℝ) + 2) * (Real.pi / 60) := by positivity
      linarith
    · have hmany : (57 : ℝ) ≤ s := by exact_mod_cast (by omega : 57 ≤ s)
      refine ⟨(0, s), .inl rfl, by simp; omega, ?_⟩
      rw [hright (by omega)]
      nlinarith

/-- A gap that is given up and one that is kept are told apart, if the kept one is at the limit
of the steering. -/
theorem exists_given_up {gap₁ gap₂ : ℝ} {b₁ b₂ s : ℕ}
    (hb₁ : ({} : VfhParams ℝ).binOf gap₁ = b₁) (hle₁ : b₁ ≤ 60)
    (hb₂ : ({} : VfhParams ℝ).binOf gap₂ = b₂) (hle₂ : b₂ ≤ 60) (hs : s < 60)
    (hlooks : b₁ ≤ s + 1 ∧ s ≤ b₁ + 1) (hskips : ¬ (b₂ ≤ s + 1 ∧ s ≤ b₂ + 1))
    (hlimit : 1.5 ≤ 2.0 * gap₂ ∨ 2.0 * gap₂ ≤ -1.5) :
    ∃ q : SteerRequest ℝ, (({} : VfhParams ℝ).steer (some gap₁) q.scan q.goalAngle q.cmdV).1 ≠
      (({} : VfhParams ℝ).steer (some gap₂) q.scan q.goalAngle q.cmdV).1 := by
  obtain ⟨run, hrun, hwide, hturn⟩ : ∃ run : ℕ × ℕ, (run = (0, s) ∨ run = (s + 1, 59 - s)) ∧
      3 ≤ run.2 ∧ ¬ ({} : VfhParams ℝ).SameTurn (({} : VfhParams ℝ).gapCenter run) gap₂ := by
    obtain ⟨⟨run, hrun, hwide, hlt⟩, ⟨run', hrun', hwide', hgt⟩⟩ := exists_gap_onePost hs
    rcases hlimit with hlimit | hlimit
    · refine ⟨run, hrun, hwide, ?_⟩
      rintro (heq | ⟨hge, -⟩ | ⟨-, hle⟩)
      · rw [heq] at hlt
        linarith
      · linarith
      · linarith
    · refine ⟨run', hrun', hwide', ?_⟩
      rintro (heq | ⟨-, hge⟩ | ⟨hle, -⟩)
      · rw [heq] at hgt
        linarith
      · linarith
      · linarith
  have hgap := mem_gaps_onePost hs (({} : VfhParams ℝ).gapCenter run) hrun hwide
  have hacts := onePost_acts s (({} : VfhParams ℝ).gapCenter run)
  have hgives := mt (gapPassableAt_onePost hs (({} : VfhParams ℝ).gapCenter run) hb₁ hle₁).mp
    (not_not.mpr hlooks)
  have hkeeps := (gapPassableAt_onePost hs (({} : VfhParams ℝ).gapCenter run) hb₂ hle₂).mpr hskips
  have hbest : ({} : VfhParams ℝ).bestGapCenter (({} : VfhParams ℝ).histogram
      (onePost s (({} : VfhParams ℝ).gapCenter run)).scan)
      (onePost s (({} : VfhParams ℝ).gapCenter run)).goalAngle =
        some (({} : VfhParams ℝ).gapCenter run) := bestGapCenter_ahead hgap
  refine ⟨onePost s (({} : VfhParams ℝ).gapCenter run), fun hsame => hturn ?_⟩
  rw [VfhParams.steer_held hacts hgap hkeeps, VfhParams.steer_of_not_idle hacts, hbest] at hsame
  refine (VfhParams.clamp_eq_iff_sameTurn (by norm_num) _ _).mp ?_
  have hfresh : ({} : VfhParams ℝ).chooseGap (({} : VfhParams ℝ).histogram
      (onePost s (({} : VfhParams ℝ).gapCenter run)).scan) (some gap₁)
      (({} : VfhParams ℝ).gapCenter run) = ({} : VfhParams ℝ).gapCenter run := if_neg hgives
  simp only [hfresh] at hsame
  exact congrArg SteerResult.steering hsame

/-- Of two sectors, one is in reach of a sector that the other is not in reach of. -/
theorem exists_sector {b₁ b₂ : ℕ} (hne : b₁ ≠ b₂) (hle₁ : b₁ ≤ 60) (hle₂ : b₂ ≤ 60) :
    ∃ s < 60, ((b₁ ≤ s + 1 ∧ s ≤ b₁ + 1) ∧ ¬ (b₂ ≤ s + 1 ∧ s ≤ b₂ + 1)) ∨
      ((b₂ ≤ s + 1 ∧ s ≤ b₂ + 1) ∧ ¬ (b₁ ≤ s + 1 ∧ s ≤ b₁ + 1)) := by
  wlog hlt : b₁ < b₂ generalizing b₁ b₂
  · obtain ⟨s, hs, hlooks⟩ := this hne.symm hle₂ hle₁ (by omega)
    exact ⟨s, hs, hlooks.symm⟩
  · by_cases hnext : b₂ + 1 < 60
    · exact ⟨b₂ + 1, hnext, .inr ⟨by omega, by omega⟩⟩
    · by_cases hzero : b₁ = 0
      · exact ⟨59, by omega, .inr ⟨by omega, by omega⟩⟩
      · exact ⟨b₁ - 1, by omega, .inl ⟨by omega, by omega⟩⟩

/-- The number of the sector of an angle; the bound is the sector after the last. -/
theorem exists_binOf_eq (angle : ℝ) : ∃ b : ℕ, ({} : VfhParams ℝ).binOf angle = b ∧ b ≤ 60 := by
  have hbins : 0 < ({} : VfhParams ℝ).binCount := by norm_num
  obtain ⟨b, hb⟩ := Int.eq_ofNat_of_zero_le
    (Int.floor_nonneg.mpr (VfhParams.position_pos hbins angle).le)
  refine ⟨b, (VfhParams.binOf_eq_floor hbins angle).trans hb, ?_⟩
  have hle := (Int.floor_le _).trans (VfhParams.position_le hbins angle)
  rw [hb] at hle
  exact_mod_cast hle

/-- Gaps that turn the robot alike, but lie in different sectors, are told apart by something
that the robot may see. -/
theorem VfhParams.exists_telling {gap₁ gap₂ : ℝ} (hturn : ({} : VfhParams ℝ).SameTurn gap₁ gap₂)
    (hbin : ({} : VfhParams ℝ).binOf gap₁ ≠ ({} : VfhParams ℝ).binOf gap₂) :
    ∃ q : SteerRequest ℝ, (({} : VfhParams ℝ).steer (some gap₁) q.scan q.goalAngle q.cmdV).1 ≠
      (({} : VfhParams ℝ).steer (some gap₂) q.scan q.goalAngle q.cmdV).1 := by
  obtain ⟨b₁, hb₁, hle₁⟩ := exists_binOf_eq gap₁
  obtain ⟨b₂, hb₂, hle₂⟩ := exists_binOf_eq gap₂
  have hlimits : (1.5 ≤ 2.0 * gap₁ ∨ 2.0 * gap₁ ≤ -1.5) ∧
      (1.5 ≤ 2.0 * gap₂ ∨ 2.0 * gap₂ ≤ -1.5) := by
    rcases hturn with rfl | ⟨hge₁, hge₂⟩ | ⟨hle₁, hle₂⟩
    · exact absurd rfl hbin
    · exact ⟨.inl hge₁, .inl hge₂⟩
    · exact ⟨.inr hle₁, .inr hle₂⟩
  have hne : b₁ ≠ b₂ := by
    rintro rfl
    exact hbin (hb₁.trans hb₂.symm)
  obtain ⟨s, hs, ⟨hlooks, hskips⟩ | ⟨hlooks, hskips⟩⟩ := exists_sector hne hle₁ hle₂
  · exact exists_given_up hb₁ hle₁ hb₂ hle₂ hs hlooks hskips hlimits.2
  · obtain ⟨q, hq⟩ := exists_given_up hb₂ hle₂ hb₁ hle₁ hs hlooks hskips hlimits.1
    exact ⟨q, hq.symm⟩

/-- If nothing that follows a round tells two memories apart, then it isolates. -/
theorem VfhParams.isolatedAt_of_answers {memory₁ memory₂ : Option ℝ} {q : SteerRequest ℝ}
    (hacts : ¬ ({} : VfhParams ℝ).Idle q)
    (h : ∀ after, ({} : VfhParams ℝ).answers memory₁ (q :: after) =
      ({} : VfhParams ℝ).answers memory₂ (q :: after)) :
    ({} : VfhParams ℝ).IsolatedAt memory₁ memory₂ q := by
  intro fresh hfresh
  simp only [VfhParams.answers, VfhParams.steer_of_not_idle hacts, hfresh, VfhParams.chooseGap_eq,
    List.cons.injEq, SteerResult.mk.injEq, and_true] at h
  have hturn := (VfhParams.clamp_eq_iff_sameTurn (p := {}) (by norm_num) _ _).mp (h []).1
  by_contra hdiffer
  obtain ⟨q', hq'⟩ := VfhParams.exists_telling hturn fun hbin => hdiffer ⟨hbin, hturn⟩
  have hnext := (h [q']).2
  simp only [VfhParams.answers, List.cons.injEq, and_true] at hnext
  exact hq' hnext

/-- Two memories give the same answers, whatever follows the first round in which the avoidance
acts, exactly when that round isolates. -/
theorem VfhParams.answers_eq_iff_isolatedAt (memory₁ memory₂ : Option ℝ)
    {before : List (SteerRequest ℝ)} {q : SteerRequest ℝ}
    (hbefore : ∀ r ∈ before, ({} : VfhParams ℝ).Idle r) (hacts : ¬ ({} : VfhParams ℝ).Idle q) :
    (∀ after, ({} : VfhParams ℝ).answers memory₁ (before ++ q :: after) =
        ({} : VfhParams ℝ).answers memory₂ (before ++ q :: after)) ↔
      ({} : VfhParams ℝ).IsolatedAt memory₁ memory₂ q := by
  induction before with
  | nil =>
    constructor
    · exact VfhParams.isolatedAt_of_answers hacts
    · intro h after
      refine VfhParams.answers_isolated (by norm_num) ?_
      rw [List.nil_append, VfhParams.isolatedBy_cons, if_neg hacts]
      exact h
  | cons r before ih =>
    rw [List.forall_mem_cons] at hbefore
    rw [← ih hbefore.2]
    simp only [List.cons_append, VfhParams.answers, VfhParams.steer_of_idle hbefore.1,
      List.cons.injEq, true_and]

/-! ## Two goals

The two nodes of the theorem may have any past. What a goal inherits from it is the remembered
gap alone: the path, the progress and the scan are replaced or read anew. -/

/-- **Goals and the remembered gap**, for any two nodes, whatever they did before. Let a goal
begin in both.
- Two executions that see the same are steered alike, if the first round in which the avoidance
  acts isolates the goal from what the nodes remember.
- If it does not, then some continuation of what is seen tells them apart: `before` and `q` are
  the rounds up to the first in which the avoidance acts, and `after` is any sequence of rounds. -/
theorem goals_isolated {s₁ s₁' s₂ s₂' : MotorState ℝ} {target : Waypoint ℝ} {now₁ now₂ : Int}
    {beforePath₁ beforePath₂ : List (Message ℝ)}
    (hgoal₁ : MotorStep s₁ (.goal target now₁ beforePath₁) s₁')
    (hgoal₂ : MotorStep s₂ (.goal target now₂ beforePath₂) s₂') :
    (∀ events₁ events₂,
      (s₁'.steerings events₁).map Prod.fst = (s₂'.steerings events₂).map Prod.fst →
      ({} : VfhParams ℝ).IsolatedBy s₁.node.lastGapCenter s₂.node.lastGapCenter
        (requests 0 ((s₁'.steerings events₁).map Prod.fst)) →
      (s₁'.steerings events₁).map Prod.snd = (s₂'.steerings events₂).map Prod.snd) ∧
    ∀ before q, (∀ r ∈ before, ({} : VfhParams ℝ).Idle r) → ¬ ({} : VfhParams ℝ).Idle q →
      ((∀ after, ({} : VfhParams ℝ).answers s₁'.node.lastGapCenter (before ++ q :: after) =
          ({} : VfhParams ℝ).answers s₂'.node.lastGapCenter (before ++ q :: after)) ↔
        ({} : VfhParams ℝ).IsolatedAt s₁.node.lastGapCenter s₂.node.lastGapCenter q) := by
  obtain ⟨hmemory₁, hprogress₁⟩ := goal_memory hgoal₁
  obtain ⟨hmemory₂, hprogress₂⟩ := goal_memory hgoal₂
  constructor
  · intro events₁ events₂ hsights hisolated
    rw [steerings_eq, steerings_eq s₂', ← hsights, hprogress₁, hprogress₂, hmemory₁, hmemory₂]
    exact VfhParams.answers_isolated (by norm_num) hisolated
  · intro before q hbefore hacts
    rw [hmemory₁, hmemory₂]
    exact VfhParams.answers_eq_iff_isolatedAt _ _ hbefore hacts

/-- The gap on the left, remembered from an earlier goal. With an echo in sector 28 it would be
chosen anyway, and does no harm. With an echo straight ahead it decides. -/
theorem goals_isolated_left :
    ∃ h₁ h₂, ∃ s₁ s₁' s₂ s₂' : MotorState ℝ,
      MotorRun true 0.30 0 h₁ s₁ ∧ MotorRun true 0.30 0 h₂ s₂ ∧
      s₁.node.lastGapCenter = some (1 / 2 * Real.pi) ∧ s₂.node.lastGapCenter = none ∧
      (s₁'.steerings [.tick (quiet 0)]).map Prod.snd =
        (s₂'.steerings [.tick (quiet 0)]).map Prod.snd ∧
      ∃ after, ({} : VfhParams ℝ).answers s₁'.node.lastGapCenter (⟨singleEcho 0, 0, 0.5⟩ :: after) ≠
        ({} : VfhParams ℝ).answers s₂'.node.lastGapCenter (⟨singleEcho 0, 0, 0.5⟩ :: after) := by
  obtain ⟨h₂, s₂, s₂', hr₂, hgoal₂, hf₂⟩ := run_facing Run.start rfl (-0.15)
  obtain ⟨_, node, hend, henabled, hmemory⟩ := hf₂.run_end (hr₂.snoc hgoal₂)
  obtain ⟨h₁, s₁, s₁', hr₁, hgoal₁, hf₁⟩ := run_facing hend henabled (-0.15)
  have hremembered : s₁.node.lastGapCenter = some (1 / 2 * Real.pi) :=
    ((goal_memory hgoal₁).1.symm.trans hf₁.memory).trans (hmemory.trans steer_left)
  have hnone : s₂.node.lastGapCenter = none := (goal_memory hgoal₂).1.symm.trans hf₂.memory
  obtain ⟨hagree, htell⟩ := goals_isolated hgoal₁ hgoal₂
  refine ⟨h₁, h₂, s₁, s₁', s₂, s₂', hr₁, hr₂, hremembered, hnone, ?_, ?_⟩
  · refine hagree [.tick (quiet 0)] [.tick (quiet 0)] ?_ ?_
    · rw [hf₁.steerings, hf₂.steerings]
      rfl
    · have hacts := not_idle_singleEcho (-0.15) (by norm_num [abs_of_neg])
      rw [hf₁.steerings, hremembered, hnone]
      simp only [List.map_cons, List.map_nil, requests, request_sightAhead,
        VfhParams.isolatedBy_cons, if_neg hacts]
      intro fresh hfresh
      rw [bestGapCenter_left binOf_left] at hfresh
      obtain rfl := Option.some.inj hfresh
      rw [← VfhParams.chooseGap_eq, VfhParams.chooseGap, ite_self]
      exact .refl _
  · have hpi := Real.pi_pos
    have hacts := not_idle_singleEcho 0 (by norm_num)
    refine not_forall.mp fun hsame => ?_
    have hgaps := (htell [] _ (by simp) hacts).mp hsame _ (bestGapCenter_right binOf_right)
    rw [hremembered, hnone, VfhParams.remembered, Option.filter_some,
      if_pos (gapPassableAt_left binOf_right)] at hgaps
    rcases hgaps.2 with heq | ⟨-, hge⟩ | ⟨hle, -⟩
    · change 1 / 2 * Real.pi = -29 / 60 * Real.pi at heq
      linarith
    · change (1.5 : ℝ) ≤ 2.0 * (-29 / 60 * Real.pi) at hge
      norm_num at hge
      linarith
    · change 2.0 * (1 / 2 * Real.pi) ≤ (-1.5 : ℝ) at hle
      norm_num at hle
      linarith

/-- A goal before which nothing happened turns the robot to the right. A goal after
another, with the same scan, pose and path, turns it to the left. -/
theorem steerings_differ :
    ∃ h₁ h₂, ∃ s₁ s₁' s₂ s₂' : MotorState ℝ,
      ∃ target now₁ now₂ beforePath₁ beforePath₂ events₁ events₂,
      MotorRun true 0.30 0 h₁ s₁ ∧ MotorRun true 0.30 0 h₂ s₂ ∧
      MotorStep s₁ (.goal target now₁ beforePath₁) s₁' ∧
      MotorStep s₂ (.goal target now₂ beforePath₂) s₂' ∧
      (s₁'.steerings events₁).map Prod.fst = (s₂'.steerings events₂).map Prod.fst ∧
      (s₁'.steerings events₁).map Prod.snd ≠ (s₂'.steerings events₂).map Prod.snd := by
  obtain ⟨h₂, s₂, s₂', hr₂, hgoal₂, hf₂⟩ := run_facing Run.start rfl 0
  obtain ⟨_, _, s, hr, hgoal, hf⟩ := run_facing Run.start rfl (-0.15)
  obtain ⟨_, node, hend, henabled, hmemory⟩ := hf.run_end (hr.snoc hgoal)
  obtain ⟨h₁, s₁, s₁', hr₁, hgoal₁, hf₁⟩ := run_facing hend henabled 0
  have hremembered : node.lastGapCenter = some (1 / 2 * Real.pi) := hmemory.trans steer_left
  refine ⟨h₁, h₂, s₁, s₁', s₂, s₂', _, _, _, _, _, [.tick (quiet 0)], [.tick (quiet 0)], hr₁, hr₂,
    hgoal₁, hgoal₂, ?_, ?_⟩
  · rw [hf₁.steerings, hf₂.steerings]
    rfl
  · have hresult :
        (({} : VfhParams ℝ).steer (some (1 / 2 * Real.pi)) (singleEcho 0) 0 0.5).1.steering ≠
          (({} : VfhParams ℝ).steer none (singleEcho 0) 0 0.5).1.steering := by
      rw [steer_kept, steer_right]
      norm_num
    rw [hf₁.steerings, hf₂.steerings, hremembered]
    intro hsame
    exact hresult (congrArg SteerResult.steering (List.cons.inj hsame).1)

end AmrFramework.Execution
