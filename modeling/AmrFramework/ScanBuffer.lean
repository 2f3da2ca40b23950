import AmrFramework.PerceptionService

/-!
# The scan buffer

A tick copies a scan over the first entries of a buffer that lives as long as
the service, and the clustering reads a fixed number of entries. What lies
behind the end of a short scan is left from longer scans before it.

`fuse_current_scan` says when that makes no difference: when no entry between
the end of the current scan and the number of points that are read is a valid
range.
-/

namespace AmrFramework.Perception

universe u

variable {K : Type u} [Field K] [CMath K]

/-! ## What the buffer holds

An entry of the buffer is the one of the last scan that was long enough to overwrite it. For the
entries below the current length that is the current scan; for the others it is older. -/

/-- The most recent scan of a history, as the tick stored it. -/
def lastScan (h : List (TickInput K)) : Option (LidarScan K) := h.findSome? TickInput.scan

/-- The entry that the last scan long enough has left at an index. -/
def lastRange (h : List (TickInput K)) (i : Nat) : Option (Option K) :=
  h.findSome? fun input => input.scan.bind fun scan => scan.ranges[i]?

/-- The current scan lies at the beginning of the buffer. -/
theorem lastRange_of_lastScan {h : List (TickInput K)} {scan : LidarScan K}
    (hscan : lastScan h = some scan) {i : Nat} (hi : i < scan.ranges.length) :
    lastRange h i = scan.ranges[i]? := by
  induction h with
  | nil => cases hscan
  | cons input h ih =>
    rw [lastScan, List.findSome?_cons] at hscan
    rw [lastRange, List.findSome?_cons, ← lastRange]
    rcases hinput : input.scan with _ | new <;> rw [hinput] at hscan
    · exact ih hscan
    · obtain rfl := Option.some.inj hscan
      rw [Option.bind_some, List.getElem?_eq_getElem hi]

variable [LinearOrder K]

/-- What a tick does to the stored scan. -/
theorem tick_scan (i : TickInput K) (s : PerceptionService K) :
    (tick i s).lidarRanges = (i.scan.elim s.lidarRanges fun scan => copyRanges scan s.lidarRanges) ∧
      (tick i s).lidarRangeCount = (i.scan.elim s.lidarRangeCount fun scan => scan.ranges.length) ∧
      (tick i s).lidarAngleMin = (i.scan.elim s.lidarAngleMin LidarScan.angleMin) ∧
      (tick i s).lidarAngleInc = (i.scan.elim s.lidarAngleInc LidarScan.angleIncrement) := by
  simp only [tick]
  obtain _ | scan := i.scan <;> rcases i.imu with _ | ⟨ax, ay⟩ <;> exact ⟨rfl, rfl, rfl, rfl⟩

/-- The buffer after any history. -/
theorem lidarRanges_after (h : List (TickInput K)) (i : Nat) :
    (after h).lidarRanges i = (lastRange h i).getD (some 0.0) := by
  induction h with
  | nil => rfl
  | cons input h ih =>
    rw [after_cons, (tick_scan input _).1, lastRange, List.findSome?_cons, ← lastRange]
    obtain _ | scan := input.scan
    · exact ih
    · rw [Option.elim_some, copyRanges, ih]
      rcases hi : scan.ranges[i]? with _ | r <;> simp [hi]

/-- The length and the angles, unlike the ranges, are always those of the most recent scan. This
is why an entry of an older scan is taken for a beam of the current one, at an angle it was not
measured at. -/
theorem stored_after {h : List (TickInput K)} {scan : LidarScan K}
    (hscan : lastScan h = some scan) :
    (after h).lidarRangeCount = scan.ranges.length ∧ (after h).lidarAngleMin = scan.angleMin ∧
      (after h).lidarAngleInc = scan.angleIncrement := by
  induction h with
  | nil => cases hscan
  | cons input h ih =>
    obtain ⟨-, hcount, hmin, hinc⟩ := tick_scan input (after h)
    rw [after_cons, hcount, hmin, hinc]
    rw [lastScan, List.findSome?_cons] at hscan
    rcases hinput : input.scan with _ | new <;> rw [hinput] at hscan
    · exact ih hscan
    · obtain rfl := Option.some.inj hscan
      exact ⟨rfl, rfl, rfl⟩

/-! ## What the clustering reads

`detect` gets the array and its own parameter for the number of points. The length of the scan,
which is stored next to the array, is not among its arguments. -/

/-- The range of beam `i` is among the points that are clustered. -/
def Contributes (p : ClusterParams K) (s : PerceptionService K) (i : Nat) : Prop :=
  ∃ pt ∈ points p s.lidarRanges s.lidarAngleMin s.lidarAngleInc, pt.sourceIdx = i

/-- A beam contributes when it is among the points that are read and its range is valid. -/
theorem contributes_iff {p : ClusterParams K} {s : PerceptionService K} {i : Nat} :
    Contributes p s i ↔ i < p.numPoints ∧ ∃ r, s.lidarRanges i = some r ∧ p.Valid r := by
  simp only [Contributes, points, List.mem_filterMap, List.mem_range, beamPoint_eq_some_iff]
  constructor
  · rintro ⟨pt, ⟨j, hj, r, hr, hvalid, hpt⟩, hidx⟩
    obtain rfl : j = i := (congrArg Point2D.sourceIdx hpt).symm.trans hidx
    exact ⟨hj, r, hr, hvalid⟩
  · rintro ⟨hi, r, hr, hvalid⟩
    exact ⟨_, ⟨i, hi, r, hr, hvalid, rfl⟩, rfl⟩

/-- Behind the end of the current scan there is a valid range of an earlier
one. -/
def Leftover (p : ClusterParams K) (scan : LidarScan K) (h : List (TickInput K)) (i : Nat) : Prop :=
  scan.ranges.length ≤ i ∧ i < p.numPoints ∧
    ∃ r, (lastRange h i).getD (some 0.0) = some r ∧ p.Valid r

/-- Only leftovers are read beside the current scan. -/
theorem contributes_after_iff {p : ClusterParams K} {scan : LidarScan K}
    {h : List (TickInput K)} :
    (∀ i, Contributes p (after h) i → i < scan.ranges.length) ↔ ∀ i, ¬ Leftover p scan h i := by
  refine forall_congr' fun i => ?_
  rw [contributes_iff, lidarRanges_after, Leftover, not_and', Nat.not_le]

/-- Without leftovers two histories with the same current scan lead to the same
points. -/
theorem points_after_eq {p : ClusterParams K} {scan : LidarScan K} {h h' : List (TickInput K)}
    (hscan : lastScan h = some scan) (hscan' : lastScan h' = some scan)
    (hclean : ∀ i, ¬ Leftover p scan h i) (hclean' : ∀ i, ¬ Leftover p scan h' i)
    (angleMin angleIncrement : K) :
    points p (after h).lidarRanges angleMin angleIncrement =
      points p (after h').lidarRanges angleMin angleIncrement := by
  refine points_congr angleMin angleIncrement fun i hi => ?_
  rw [lidarRanges_after, lidarRanges_after]
  obtain hlt | hge := Nat.lt_or_ge i scan.ranges.length
  · rw [lastRange_of_lastScan hscan hlt, lastRange_of_lastScan hscan' hlt]
  · have hinvalid : ∀ h : List (TickInput K), (¬ Leftover p scan h i) →
        ((lastRange h i).getD (some 0.0)).filter (p.Valid ·) = none := by
      intro h hclean
      rw [Option.filter_eq_none_iff]
      intro r hr hvalid
      exact hclean ⟨hge, hi, r, hr, of_decide_eq_true hvalid⟩
    rw [hinvalid h (hclean i), hinvalid h' (hclean' i)]

/-- The levels at which `fuse` clusters the buffer. -/
def DegradationLevel.ReadsLidar (level : DegradationLevel) : Prop :=
  level ≠ .noLidar ∧ level ≠ .critical

/-- **When only the current scan is used**: the points that are clustered come
from it exactly when nothing valid is left behind its end. Two histories with the
same current scan and the same depth clusters are fused to the same clusters, at
a level that reads the buffer if nothing valid is left in either, and at the
others in any case.

The first part is about each entry of the buffer (`lidarRanges_after`): it comes
from the last scan that was long enough. The second follows from it, because
the points are all that `detect` sees of the buffer. -/
theorem fuse_current_scan (p : ClusterParams K) (policy : DegradationConfig K)
    (scan : LidarScan K) (h : List (TickInput K)) (hscan : lastScan h = some scan) :
    ((∀ i, Contributes p (after h) i → i < scan.ranges.length) ↔ ∀ i, ¬ Leftover p scan h i) ∧
      ∀ h', lastScan h' = some scan → (after h').depthClusters = (after h).depthClusters →
        ∀ level : DegradationLevel,
          (level.ReadsLidar → (∀ i, ¬ Leftover p scan h i) ∧ ∀ i, ¬ Leftover p scan h' i) →
          (after h').fuse ⟨some p, policy⟩ level = (after h).fuse ⟨some p, policy⟩ level := by
  refine ⟨contributes_after_iff, ?_⟩
  intro h' hscan' hdepth level hclean
  obtain ⟨hcount, hmin, hinc⟩ := stored_after hscan
  obtain ⟨hcount', hmin', hinc'⟩ := stored_after hscan'
  have hpoints : level.ReadsLidar →
      points p (after h).lidarRanges scan.angleMin scan.angleIncrement =
        points p (after h').lidarRanges scan.angleMin scan.angleIncrement := fun hreads =>
    points_after_eq hscan hscan' (hclean hreads).1 (hclean hreads).2 scan.angleMin
      scan.angleIncrement
  cases level with
  | full | noCamera | noImu =>
    have hsame := hpoints ⟨by simp, by simp⟩
    simp only [PerceptionService.fuse, ClusterParams.detect, hcount, hmin, hinc, hcount', hmin',
      hinc', hdepth, hsame]
  | noLidar | critical => simp [PerceptionService.fuse]

/-! ## A leftover obstacle

First the run that the buffer spoils: after six echoes a scan of one beam without an echo is
fused to a cluster. Then one that it does not: a longer scan before a shorter one whose rest is
invalid. -/

/-- Six echoes at 12 cm. -/
noncomputable def nearScan : LidarScan ℝ where
  ranges := List.replicate 6 (some 0.12)
  size_le := by decide
  angleMin := 0
  angleIncrement := 0

/-- One beam without an echo. -/
def emptyScan : LidarScan ℝ where
  ranges := [none]
  size_le := by decide
  angleMin := 0
  angleIncrement := 0

/-- A tick that delivers a scan. -/
noncomputable def scanTick (scan : LidarScan ℝ) : TickInput ℝ where
  dt := 0.2
  lidar := some scan
  imu := some (0, 0)
  camera := some []
  transform := none

/-- The buffer when the empty scan follows the six echoes. -/
theorem buffer_leftover (i : Nat) :
    (after [scanTick emptyScan, scanTick nearScan]).lidarRanges i =
      if i = 0 then none else if i < 6 then some 0.12 else some 0.0 := by
  rw [lidarRanges_after]
  obtain _ | i := i
  · rfl
  · have hempty : emptyScan.ranges[i + 1]? = none := List.getElem?_eq_none (by simp [emptyScan])
    obtain hlt | hge := Nat.lt_or_ge (i + 1) 6
    · have hnear : nearScan.ranges[i + 1]? = some (some 0.12) := by
        rw [nearScan, List.getElem?_replicate, if_pos hlt]
      simp [lastRange, scanTick, TickInput.scan, hempty, hnear, hlt]
    · have hnear : nearScan.ranges[i + 1]? = none :=
        List.getElem?_eq_none (by simpa [nearScan] using hge)
      simp [lastRange, scanTick, TickInput.scan, hempty, hnear, not_lt.mpr hge]

/-- Without depth clusters `FULL` publishes what the clustering finds. -/
theorem fuse_full_of_no_depth {s : PerceptionService ℝ} (hdepth : s.depthClusters = [])
    (hcount : 0 < s.lidarRangeCount) :
    s.fuse {} .full =
      ({} : ClusterParams ℝ).detect s.lidarRanges s.lidarAngleMin s.lidarAngleInc := by
  simp [PerceptionService.fuse, merge, hdepth, hcount]

theorem not_valid_zero : ¬ ({} : ClusterParams ℝ).Valid 0.0 := by
  rintro ⟨hmin, -⟩
  norm_num at hmin

/-- On its own the scan without an echo is fused to nothing. -/
theorem clusters_empty_scan : (after [scanTick emptyScan]).fuse {} .full = [] := by
  rw [fuse_full_of_no_depth rfl one_pos]
  refine detect_eq_nil fun i r hr => ?_
  rw [lidarRanges_after] at hr
  obtain _ | i := i
  · cases hr
  · have hempty : emptyScan.ranges[i + 1]? = none := List.getElem?_eq_none (by simp [emptyScan])
    have hzero : r = 0.0 := by
      simpa [lastRange, scanTick, TickInput.scan, hempty, eq_comm] using hr
    rw [hzero]
    exact not_valid_zero

/-- After the six echoes it is not. -/
theorem clusters_leftover :
    (after [scanTick emptyScan, scanTick nearScan]).fuse {} .full ≠ [] := by
  rw [fuse_full_of_no_depth rfl one_pos]
  refine detect_ne_nil (r := 0.12) [1, 2, 3, 4, 5] (by constructor <;> norm_num)
    (by decide +kernel) ?_ (by simp) (by simp) ?_
  · intro i hi
    rw [buffer_leftover]
    fin_cases hi <;> rfl
  · intro i r' hr' hvalid
    rw [buffer_leftover] at hr'
    split_ifs at hr'
    · exact (Option.some.inj hr').symm
    · obtain rfl := Option.some.inj hr'
      exact absurd hvalid not_valid_zero

/-- A scan of two echoes. -/
noncomputable def shortScan : LidarScan ℝ where
  ranges := [some 0.5, some 0.5]
  size_le := by decide
  angleMin := 0
  angleIncrement := 0

/-- A longer one. What it has behind the end of the other is no echo, or one that is too near. -/
noncomputable def longScan : LidarScan ℝ where
  ranges := [some 0.3, some 0.3, none, some 0.05]
  size_le := by decide
  angleMin := 0
  angleIncrement := 0

theorem not_leftover_shortScan (h : List (TickInput ℝ))
    (hh : h = [scanTick shortScan] ∨ h = [scanTick shortScan, scanTick longScan]) (i : Nat) :
    ¬ Leftover {} shortScan h i := by
  rintro ⟨hi, -, r, hr, hmin, -⟩
  have hlen : 2 ≤ i := hi
  have hshort : shortScan.ranges[i]? = none := List.getElem?_eq_none hi
  -- before the first scan the buffer is filled with zeros
  have hnear : r ≤ 0.05 := by
    rcases hh with rfl | rfl
    · have hzero : r = 0.0 := by
        simpa [lastRange, scanTick, TickInput.scan, hshort, eq_comm] using hr
      norm_num [hzero]
    · match i, hlen with
      | 2, _ => simp [lastRange, scanTick, TickInput.scan, shortScan, longScan] at hr
      | 3, _ =>
        have hlast : r = 0.05 := by
          simpa [lastRange, scanTick, TickInput.scan, shortScan, longScan, eq_comm] using hr
        exact hlast.le
      | i + 4, _ =>
        have hzero : r = 0.0 := by
          simpa [lastRange, scanTick, TickInput.scan, shortScan, longScan, eq_comm] using hr
        norm_num [hzero]
  norm_num at hmin hnear
  linarith

/-- The short scan is used alone after the longer one, and at the level `critical` the empty scan
is even after the six echoes. -/
theorem fuse_current_scan_short :
    Contributes {} (after [scanTick shortScan, scanTick longScan]) 1 ∧
      (∀ i, Contributes {} (after [scanTick shortScan, scanTick longScan]) i → i < 2) ∧
      (after [scanTick shortScan, scanTick longScan]).fuse {} .full =
        (after [scanTick shortScan]).fuse {} .full ∧
      (after [scanTick emptyScan, scanTick nearScan]).fuse {} .critical =
        (after [scanTick emptyScan]).fuse {} .critical := by
  obtain ⟨hcurrent, -⟩ :=
    fuse_current_scan {} {} shortScan [scanTick shortScan, scanTick longScan] rfl
  obtain ⟨-, hsame⟩ := fuse_current_scan {} {} shortScan [scanTick shortScan] rfl
  obtain ⟨-, hcritical⟩ := fuse_current_scan {} {} emptyScan [scanTick emptyScan] rfl
  refine ⟨?_, hcurrent.mpr (not_leftover_shortScan _ (.inr rfl)), ?_, ?_⟩
  · refine contributes_iff.mpr ⟨by norm_num, 0.5, ?_, by constructor <;> norm_num⟩
    rw [lidarRanges_after]
    rfl
  · exact hsame [scanTick shortScan, scanTick longScan] rfl rfl .full fun _ =>
      ⟨not_leftover_shortScan _ (.inl rfl), not_leftover_shortScan _ (.inr rfl)⟩
  · exact hcritical [scanTick emptyScan, scanTick nearScan] rfl rfl .critical fun hreads =>
      absurd rfl hreads.2

/-- After the six echoes it is fused to a cluster that is not there. -/
theorem fuse_leftover :
    lastScan [scanTick emptyScan, scanTick nearScan] = lastScan [scanTick emptyScan] ∧
      (after [scanTick emptyScan, scanTick nearScan]).depthClusters =
        (after [scanTick emptyScan]).depthClusters ∧
      (after [scanTick emptyScan, scanTick nearScan]).fuse {} .full ≠
        (after [scanTick emptyScan]).fuse {} .full := by
  refine ⟨rfl, rfl, ?_⟩
  rw [clusters_empty_scan]
  exact clusters_leftover

end AmrFramework.Perception
