import AmrFramework.MaximalRuns
import AmrFramework.RunningBest
import AmrFramework.FieldOfView
import AmrFramework.GapMemory
import Mathlib.Order.WithBot

/-!
# The scan for gaps

* `mem_passableRuns` — the scan of the sectors lists the maximal runs of passable ones.
* `VfhParams.bestGapCenter_cases` — of those that are long enough, `best_gap_center` takes
  one that is closest to the goal bearing.
* `VfhParams.histogram_passable` — a sector is passable when no echo in it is near.
* `VfhParams.position` — where an angle lies on the line of sectors.

The source finds the gaps in one pass over the sectors, with a run that is open or not. What it
has found is described here in terms of the sectors alone, and from then on no proof about the
avoidance goes through that pass again. The same for the histogram, whose entries are minima over
the echoes that fall in a sector, and for angles, which are put on the line of sectors by
`position`.
-/

namespace AmrFramework.Execution

open MaximalRuns

universe u

/-! ## The runs

The pass is a fold with an open run. Its invariant (`EndsWith`) is that the entries read so far
end with that run, which is maximal to the left, or with no passable entry at all. -/

/-- The run of `true` that the entries read so far end with, which is what the pass keeps: its
start and its length, or nothing. -/
def EndsWith (read : List Bool) : Option (Nat × Nat) → Prop
  | none => read.getLast? ≠ some true
  | some (start, count) =>
    start + count = read.length ∧ 0 < count ∧ Block read start count ∧
      ∀ i, i + 1 = start → read[i]? = some false

section EndsWith

variable {read rest : List Bool} {start count : Nat}

theorem getElem?_snoc_length (read : List Bool) (b : Bool) :
    (read ++ [b])[read.length]? = some b := by
  rw [List.getElem?_append_right le_rfl, Nat.sub_self]
  rfl

/-- What was read does not change, -/
theorem Block.append (h : Block read start count) (rest : List Bool) :
    Block (read ++ rest) start count := by
  intro j hj
  rw [List.getElem?_append_left (lt_length_of_true (h j hj))]
  exact h j hj

/-- nor what ends it on the left. -/
theorem left_append (h : ∀ i, i + 1 = start → read[i]? = some false) (rest : List Bool) :
    ∀ i, i + 1 = start → (read ++ rest)[i]? = some false := by
  intro i hi
  have hfalse := h i hi
  rw [List.getElem?_append_left (List.getElem?_eq_some_iff.mp hfalse).1]
  exact hfalse

/-- A passable sector opens a run, -/
theorem EndsWith.begin (h : EndsWith read none) :
    EndsWith (read ++ [true]) (some (read.length, 1)) := by
  refine ⟨by simp, Nat.one_pos, fun j hj => ?_, fun i hi => ?_⟩
  · obtain rfl := Nat.lt_one_iff.mp hj
    exact getElem?_snoc_length read true
  · have hlt : i < read.length := by omega
    rw [List.getElem?_append_left hlt, List.getElem?_eq_getElem hlt]
    refine congrArg some (Bool.eq_false_iff.mpr fun hbit => h ?_)
    rw [List.getLast?_eq_getElem?, ← hi, Nat.add_sub_cancel, List.getElem?_eq_getElem hlt, hbit]

/-- or makes the open one longer, -/
theorem EndsWith.extend (h : EndsWith read (some (start, count))) :
    EndsWith (read ++ [true]) (some (start, count + 1)) := by
  obtain ⟨hlen, hpos, hblock, hleft⟩ := h
  refine ⟨?_, Nat.succ_pos _, block_succ.mpr ⟨Block.append hblock _, ?_⟩, left_append hleft _⟩
  · rw [List.length_append, List.length_singleton]
    omega
  · rw [hlen]
    exact getElem?_snoc_length read true

/-- and one that is not passable leaves none open. -/
theorem endsWith_end (read : List Bool) : EndsWith (read ++ [false]) none := by
  simp [EndsWith]

/-- Where the run is not continued it is maximal, and no other maximal run ends there. So the
pass may list it, and lists nothing else at that entry. -/
theorem EndsWith.mem_iff {current : Option (Nat × Nat)} (h : EndsWith read current)
    (rest : List Bool) (hrest : rest[0]? ≠ some true) {run : Nat × Nat} :
    run ∈ current.toList ↔ MaximalRun (read ++ rest) run.1 run.2 ∧ run.1 + run.2 = read.length := by
  have hnext : (read ++ rest)[read.length]? = rest[0]? := by
    rw [List.getElem?_append_right le_rfl, Nat.sub_self]
  have hend : ∀ s c, MaximalRun (read ++ rest) s c → s + c = read.length →
      read.getLast? = some true := by
    intro s c hrun heq
    have hlast := hrun.block.get (i := s + c - 1) (by have := hrun.pos; omega)
      (by have := hrun.pos; omega)
    rw [heq, List.getElem?_append_left (by have := hrun.pos; omega)] at hlast
    rw [List.getLast?_eq_getElem?, hlast]
  cases current with
  | none =>
    refine iff_of_false List.not_mem_nil ?_
    rintro ⟨hrun, heq⟩
    exact h (hend _ _ hrun heq)
  | some current =>
    obtain ⟨start, count⟩ := current
    obtain ⟨hlen, hpos, hblock, hleft⟩ := h
    have hmax : MaximalRun (read ++ rest) start count :=
      ⟨hpos, Block.append hblock _, left_append hleft _, by rwa [hlen, hnext]⟩
    rw [Option.toList_some, List.mem_singleton]
    constructor
    · rintro rfl
      exact ⟨hmax, hlen⟩
    · rintro ⟨hrun, heq⟩
      have hposrun := hrun.pos
      exact Prod.ext_iff.mpr (hrun.unique hmax (i := read.length - 1) (by omega) (by omega)
        (by omega) (by omega))

/-- What the scan lists from an entry on: the maximal runs that end there or later. By induction
on the entries that are left. -/
theorem mem_passableRuns_from {current : Option (Nat × Nat)} (h : EndsWith read current)
    {run : Nat × Nat} :
    run ∈ passableRuns rest read.length current ↔
      MaximalRun (read ++ rest) run.1 run.2 ∧ read.length ≤ run.1 + run.2 := by
  induction rest generalizing read current with
  | nil =>
    have hlist : passableRuns [] read.length current = current.toList := by
      rw [passableRuns]
    rw [hlist, h.mem_iff [] (by simp)]
    refine and_congr_right fun hrun => ?_
    have hle := hrun.le_length
    rw [List.append_nil] at hle
    omega
  | cons b rest ih =>
    have hlength : ∀ b : Bool, (read ++ [b]).length = read.length + 1 := by simp
    have hsplit : read ++ b :: rest = read ++ [b] ++ rest := by simp
    have hat : (read ++ b :: rest)[read.length]? = some b := by
      rw [List.getElem?_append_right le_rfl, Nat.sub_self]
      rfl
    cases b with
    | false =>
      -- the run in progress ends here, and is listed
      have hcons : passableRuns (false :: rest) read.length current =
          current.toList ++ passableRuns rest (read.length + 1) none := by
        rw [passableRuns]
      have hih := ih (endsWith_end read)
      rw [hlength, ← hsplit] at hih
      rw [hcons, List.mem_append, hih, h.mem_iff (false :: rest) (by simp)]
      constructor
      · rintro (⟨hrun, heq⟩ | ⟨hrun, hle⟩)
        · exact ⟨hrun, heq.ge⟩
        · exact ⟨hrun, by omega⟩
      · rintro ⟨hrun, hle⟩
        obtain heq | hlt := hle.eq_or_lt
        · exact .inl ⟨hrun, heq.symm⟩
        · exact .inr ⟨hrun, hlt⟩
    | true =>
      -- no run ends before an entry that continues it
      have hlater : (MaximalRun (read ++ true :: rest) run.1 run.2 ∧
            read.length ≤ run.1 + run.2) ↔
          MaximalRun (read ++ true :: rest) run.1 run.2 ∧ read.length + 1 ≤ run.1 + run.2 := by
        refine and_congr_right fun hrun => ?_
        constructor
        · intro hle
          obtain heq | hlt := hle.eq_or_lt
          · refine absurd ?_ hrun.right
            rw [← heq, hat]
          · exact hlt
        · exact Nat.le_of_succ_le
      rw [hlater, hsplit, ← hlength true]
      cases current with
      | none =>
        rw [passableRuns]
        exact hlength true ▸ ih h.begin
      | some current =>
        rw [passableRuns]
        exact hlength true ▸ ih h.extend

end EndsWith

/-- The scan lists the maximal runs. It ends with the runs that are left open, which is why a run
at the end of the line is not forgotten, and why one over the seam is two. -/
theorem mem_passableRuns {bs : List Bool} {run : Nat × Nat} :
    run ∈ passableRuns bs 0 none ↔ MaximalRun bs run.1 run.2 := by
  have hempty : EndsWith [] none := by simp [EndsWith]
  rw [show (0 : Nat) = [].length from rfl, mem_passableRuns_from hempty]
  exact and_iff_left (Nat.zero_le _)

/-! ## The gaps

The choice among the gaps is a loop with a best so far, whose bound is an infinite score. -/

variable {K : Type u} [Field K] [LinearOrder K]

/-- The gaps: the runs of at least `min_gap_bins` passable sectors. -/
def VfhParams.gaps (p : VfhParams K) (bins : List (Option K)) : List (Nat × Nat) :=
  (passableRuns (bins.map p.passable) 0 none).filter fun run => p.minGapBins ≤ run.2

/-- How far the center of a run is from the goal bearing, by the shorter way around. -/
def VfhParams.score [CMath K] (p : VfhParams K) (goalAngle : K) (run : Nat × Nat) : K :=
  |wrap (p.gapCenter run - goalAngle)|

variable {p : VfhParams K} {bins : List (Option K)}

theorem VfhParams.mem_gaps {run : Nat × Nat} :
    run ∈ p.gaps bins ↔
      MaximalRun (bins.map p.passable) run.1 run.2 ∧ p.minGapBins ≤ run.2 := by
  rw [VfhParams.gaps, List.mem_filter, mem_passableRuns, decide_eq_true_eq]

/-- There is no gap when there are no `min_gap_bins` passable sectors in a row. A block that is
long enough lies in a maximal run that is. -/
theorem VfhParams.gaps_eq_nil_iff (hgap : 1 ≤ p.minGapBins) :
    p.gaps bins = [] ↔ ¬ ∃ s, Block (bins.map p.passable) s p.minGapBins := by
  rw [List.eq_nil_iff_forall_not_mem]
  constructor
  · rintro hnone ⟨s, hblock⟩
    obtain ⟨start, count, hrun, hle, hge⟩ := exists_maximalRun hblock hgap
    exact hnone (start, count) (mem_gaps.mpr ⟨hrun, by omega⟩)
  · intro hnone run hrun
    obtain ⟨hmax, hlen⟩ := mem_gaps.mp hrun
    exact hnone ⟨run.1, hmax.block.mono le_rfl (by omega)⟩

variable [CMath K]

/-- One more gap: the center that is closest so far, and its score. Of two that are equally close
the first one stays. -/
def VfhParams.closer (p : VfhParams K) (goalAngle : K) (best : Option (K × K)) (run : Nat × Nat) :
    Option (K × K) :=
  match best with
  | some (_, bestScore) =>
    if p.score goalAngle run < bestScore then some (p.gapCenter run, p.score goalAngle run)
    else best
  | none => some (p.gapCenter run, p.score goalAngle run)

theorem VfhParams.bestGapCenter_eq (p : VfhParams K) (bins : List (Option K)) (goalAngle : K) :
    p.bestGapCenter bins goalAngle =
      ((p.gaps bins).foldl (p.closer goalAngle) none).map Prod.fst := rfl

/-- The same as the best so far, where the infinite score is the bound. -/
def bestView (best : Option (K × K)) : WithTop K × Option K :=
  (best.elim ⊤ fun b => (b.2 : WithTop K), best.map Prod.fst)

theorem VfhParams.bestView_closer (p : VfhParams K) (goalAngle : K) (best : Option (K × K))
    (run : Nat × Nat) :
    RunningBest.look (fun _ => True) (fun run => (p.score goalAngle run : WithTop K)) p.gapCenter
      (bestView best) run = bestView (p.closer goalAngle best run) := by
  obtain _ | ⟨center, bestScore⟩ := best
  · simp [RunningBest.look, bestView, VfhParams.closer]
  · simp only [RunningBest.look, bestView, VfhParams.closer, Option.elim_some, WithTop.coe_lt_coe,
      true_and]
    split_ifs <;> rfl

/-- `best_gap_center` finds a gap whose center is closest to the goal bearing, if there is one.
The sectors are scanned on a line, so a gap over the seam is two. -/
theorem VfhParams.bestGapCenter_cases (p : VfhParams K) (bins : List (Option K)) (goalAngle : K) :
    (p.gaps bins = [] ∧ p.bestGapCenter bins goalAngle = none) ∨
      ∃ run ∈ p.gaps bins, p.bestGapCenter bins goalAngle = some (p.gapCenter run) ∧
        ∀ run' ∈ p.gaps bins, p.score goalAngle run ≤ p.score goalAngle run' := by
  have hbest := RunningBest.best_foldl (fun _ => True)
    (fun run => (p.score goalAngle run : WithTop K)) p.gapCenter ⊤ (p.gaps bins)
  have hview : bestView ((p.gaps bins).foldl (p.closer goalAngle) none) =
      (p.gaps bins).foldl (RunningBest.look (fun _ => True)
        (fun run => (p.score goalAngle run : WithTop K)) p.gapCenter) (⊤, none) :=
    (List.foldl_hom bestView (p.bestView_closer goalAngle)).symm
  rw [← hview] at hbest
  rw [p.bestGapCenter_eq]
  cases hfold : (p.gaps bins).foldl (p.closer goalAngle) none with
  | none =>
    left
    rw [hfold] at hbest
    refine ⟨List.eq_nil_iff_forall_not_mem.mpr fun run hrun => ?_, rfl⟩
    exact WithTop.coe_ne_top (top_le_iff.mp (hbest.least run hrun trivial))
  | some best =>
    right
    rw [hfold] at hbest
    obtain ⟨run, hrun, -, hcenter, hscore, -⟩ := hbest.found best.1 rfl
    refine ⟨run, hrun, congrArg some hcenter.symm, fun run' hrun' => ?_⟩
    have hle := hbest.least run' hrun' trivial
    rw [hscore] at hle
    exact WithTop.coe_le_coe.mp hle

theorem VfhParams.bestGapCenter_eq_none {goalAngle : K} :
    p.bestGapCenter bins goalAngle = none ↔ p.gaps bins = [] := by
  rcases p.bestGapCenter_cases bins goalAngle with ⟨hnone, hbest⟩ | ⟨run, hrun, hbest, -⟩
  · exact iff_of_true hbest hnone
  · exact iff_of_false (by simp [hbest]) (List.ne_nil_of_mem hrun)

/-! ## The sectors

The histogram keeps the nearest echo of each sector; what is asked of it later is only whether
that is near, which is to say whether any echo of the sector is. -/

/-- The intervention gate: an echo near the goal bearing is near the robot. Echoes elsewhere do
not engage the avoidance. -/
theorem VfhParams.engaged_iff {scan : ScanData K} {goalAngle : K} :
    p.Engaged scan goalAngle ↔
      ∃ e ∈ scan.echoes, |wrap (e.2 - goalAngle)| ≤ p.fovHalf ∧ e.1 ≤ p.activeRange := by
  have hmem : ∀ r, r ∈ (scan.echoes.filter fun e => |wrap (e.2 - goalAngle)| ≤ p.fovHalf).map
      Prod.fst ↔ ∃ a, (r, a) ∈ scan.echoes ∧ |wrap (a - goalAngle)| ≤ p.fovHalf := by
    simp
  constructor
  · rintro ⟨d, hd, hle⟩
    obtain ⟨a, ha, hfov⟩ := (hmem d).mp (List.min?_eq_some_iff.mp hd).1
    exact ⟨(d, a), ha, hfov, hle⟩
  · rintro ⟨e, he, hfov, hle⟩
    have hin := (hmem e.1).mpr ⟨e.2, he, hfov⟩
    cases hd : p.nearestInGoalFov scan goalAngle with
    | none => exact absurd (List.min?_eq_none_iff.mp hd) (List.ne_nil_of_mem hin)
    | some d => exact ⟨d, hd, ((List.min?_eq_some_iff.mp hd).2 _ hin).trans hle⟩

variable [FloorRing K]

/-- One more echo, in the loop of `build_histogram`: the nearest one of a sector stays. -/
def VfhParams.record (p : VfhParams K) (bins : List (Option K)) (e : K × K) : List (Option K) :=
  bins.modify (p.sector (p.binOf e.2)) fun bin => some (bin.elim e.1 fun nearest => min nearest e.1)

theorem VfhParams.histogram_eq (p : VfhParams K) (scan : ScanData K) :
    p.histogram scan = scan.echoes.foldl p.record (.replicate p.binCount none) := rfl

/-- There are as many sectors as the parameter says. -/
@[simp] theorem VfhParams.length_histogram (p : VfhParams K) (scan : ScanData K) :
    (p.histogram scan).length = p.binCount := by
  rw [p.histogram_eq]
  induction scan.echoes using List.reverseRecOn with
  | nil => simp
  | append_singleton l e ih =>
    rw [List.foldl_append, List.foldl_cons, List.foldl_nil, VfhParams.record, List.length_modify,
      ih]

/-- An echo closes its sector when it is near. -/
theorem VfhParams.record_passable {e : K × K} {s : Nat} :
    ((p.record bins e).map p.passable)[s]? = some true ↔
      (bins.map p.passable)[s]? = some true ∧
        (p.sector (p.binOf e.2) = s → p.passableThreshold < e.1) := by
  rw [VfhParams.record, List.getElem?_map, List.getElem?_map, List.getElem?_modify]
  obtain hnone | ⟨bin, hbin⟩ := (bins[s]?).eq_none_or_eq_some
  · simp [hnone]
  · rw [hbin]
    by_cases hs : p.sector (p.binOf e.2) = s
    · cases bin <;> simp [hs, VfhParams.passable]
    · simp [hs]

/-- A sector is passable when every echo in it is far enough. In particular one without any echo
is. -/
theorem VfhParams.histogram_passable (p : VfhParams K) (scan : ScanData K) {s : Nat} :
    ((p.histogram scan).map p.passable)[s]? = some true ↔
      s < p.binCount ∧
        ∀ e ∈ scan.echoes, p.sector (p.binOf e.2) = s → p.passableThreshold < e.1 := by
  rw [p.histogram_eq]
  induction scan.echoes using List.reverseRecOn with
  | nil => simp [List.getElem?_replicate, VfhParams.passable]
  | append_singleton l e ih =>
    rw [List.foldl_append, List.foldl_cons, List.foldl_nil, record_passable, ih, and_assoc]
    simp only [List.forall_mem_append, List.forall_mem_singleton]

/-! ## Where an angle lies

On the real line, the angle `-π` is at position 0 and `π` at `bin_count`. The sector of an angle
is its position, rounded down; the center of a run of sectors is half a sector beyond the middle
of its positions. -/

section Position

variable {p : VfhParams ℝ}

theorem VfhParams.binWidth_eq (p : VfhParams ℝ) : p.binWidth = 2 * Real.pi / p.binCount := by
  rw [VfhParams.binWidth, CMath.pi_real]
  norm_num

/-- Sectors have a width. -/
theorem VfhParams.binWidth_pos (hbins : 0 < p.binCount) : 0 < p.binWidth := by
  rw [p.binWidth_eq]
  exact div_pos Real.two_pi_pos (Nat.cast_pos.mpr hbins)

/-- The sectors go once around. -/
theorem VfhParams.binCount_mul_binWidth (hbins : 0 < p.binCount) :
    p.binCount * p.binWidth = 2 * Real.pi := by
  rw [p.binWidth_eq, mul_div_cancel₀ _ (Nat.cast_pos.mpr hbins).ne']

/-- Wrapped angles go once around. -/
theorem wrap_mem (a : ℝ) : wrap a ∈ Set.Ioc (-Real.pi) Real.pi := Complex.arg_mem_Ioc _

/-- The position of an angle on the line of sectors, in sectors. -/
noncomputable def VfhParams.position (p : VfhParams ℝ) (angle : ℝ) : ℝ :=
  (wrap angle + Real.pi) / p.binWidth

/-- Positions are on the line, the left end excluded -/
theorem VfhParams.position_pos (hbins : 0 < p.binCount) (angle : ℝ) : 0 < p.position angle :=
  div_pos (by linarith [(wrap_mem angle).1]) (binWidth_pos hbins)

/-- and the right end included. -/
theorem VfhParams.position_le (hbins : 0 < p.binCount) (angle : ℝ) :
    p.position angle ≤ p.binCount := by
  rw [VfhParams.position, div_le_iff₀ (binWidth_pos hbins), binCount_mul_binWidth hbins]
  linarith [(wrap_mem angle).2]

/-- The conversion to `int` rounds down, as positions are not negative. At `π` itself it is one
past the last sector, and clamped to that. -/
theorem VfhParams.binOf_eq_floor (hbins : 0 < p.binCount) (angle : ℝ) :
    p.binOf angle = ⌊p.position angle⌋ := by
  have hpos := position_pos hbins angle
  exact if_pos hpos.le

theorem VfhParams.sector_natCast {n : ℕ} (hn : n < p.binCount) : p.sector n = n := by
  have hclamp : AmrFramework.clamp (n : ℤ) 0 (p.binCount - 1) = n := clamp_eq (by omega) (by omega)
  rw [VfhParams.sector, hclamp, Int.toNat_natCast]

/-- The angle at a position, and back: on the line without its left end the two are inverse to
each other. -/
theorem VfhParams.position_angle (hbins : 0 < p.binCount) {x : ℝ} (hx : 0 < x)
    (hx' : x ≤ p.binCount) :
    wrap (-Real.pi + x * p.binWidth) = -Real.pi + x * p.binWidth ∧
      p.position (-Real.pi + x * p.binWidth) = x := by
  have hwidth := binWidth_pos hbins
  have hle : x * p.binWidth ≤ 2 * Real.pi := by
    rw [← binCount_mul_binWidth hbins]
    exact mul_le_mul_of_nonneg_right hx' hwidth.le
  have hwrap := wrap_of_mem (a := -Real.pi + x * p.binWidth)
    ⟨by linarith [mul_pos hx hwidth], by linarith⟩
  refine ⟨hwrap, ?_⟩
  rw [VfhParams.position, hwrap, neg_add_cancel_comm, mul_div_cancel_right₀ _ hwidth.ne']

/-- The center of a run lies half a sector to the left of its middle, by the `+ 0.5` of the
source. -/
theorem VfhParams.gapCenter_eq (p : VfhParams ℝ) (run : ℕ × ℕ) :
    p.gapCenter run = wrap (-Real.pi + ((run.1 : ℝ) + run.2 / 2 + 1 / 2) * p.binWidth) := by
  rw [VfhParams.gapCenter, CMath.pi_real]
  norm_num

theorem VfhParams.gapCenter_of_le (hbins : 0 < p.binCount) {run : ℕ × ℕ} (hpos : 0 < run.2)
    (hle : run.1 + run.2 ≤ p.binCount) :
    p.gapCenter run = -Real.pi + ((run.1 : ℝ) + run.2 / 2 + 1 / 2) * p.binWidth ∧
      p.position (p.gapCenter run) = run.1 + run.2 / 2 + 1 / 2 := by
  have hone : (1 : ℝ) ≤ run.2 := by exact_mod_cast hpos
  have hend : (run.1 : ℝ) + run.2 ≤ p.binCount := by exact_mod_cast hle
  have hstart : (0 : ℝ) ≤ run.1 := run.1.cast_nonneg
  obtain ⟨hwrap, hposition⟩ := position_angle hbins (x := run.1 + run.2 / 2 + 1 / 2)
    (by linarith) (by linarith)
  rw [p.gapCenter_eq, hwrap]
  exact ⟨rfl, hposition⟩

/-- The sector `n`, from its bounds. -/
theorem VfhParams.sector_binOf {angle : ℝ} {n : ℕ} (hn : n < p.binCount)
    (hlo : n ≤ p.position angle) (hhi : p.position angle < n + 1) :
    p.sector (p.binOf angle) = n := by
  have hfloor : ⌊p.position angle⌋ = (n : ℤ) := Int.floor_eq_iff.mpr ⟨by exact_mod_cast hlo, hhi⟩
  rw [binOf_eq_floor (by omega), hfloor, sector_natCast hn]

end Position

end AmrFramework.Execution
