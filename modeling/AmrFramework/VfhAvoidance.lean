import AmrFramework.CollisionGuard

/-!
# Avoidance

`VfhAvoidance` sorts the echoes of a scan into sectors around the robot. When an
obstacle is near the goal bearing it steers to a gap, a run of passable sectors:
to the one it chose before while that is passable, and else to the one closest
to the goal bearing.

The chosen gap is the memory of the layer. `none` stands for the infinity that
`reset` stores.

Sectors are counted from straight behind the robot, turning left, and there are `bin_count` of
them on a line: the last one and the first one are not adjacent for any function of the source. A
sector without an echo is `none`, which is an infinite range.
-/

namespace AmrFramework.Execution

universe u

variable {K : Type u} [Field K]

/-- `VfhAvoidance::Params`. -/
structure VfhParams (K : Type u) [Field K] : Type u where
  /-- an obstacle within: steer -/
  activeRange : K := 3.0
  /-- a sector is passable if its nearest echo lies beyond -/
  passableThreshold : K := 0.5
  /-- the intervention looks at the goal ± this angle -/
  fovHalf : K := 0.7854
  maxSteering : K := 1.5
  /-- below: stationary -/
  minLinear : K := 0.05
  binCount : Nat := 60
  minGapBins : Nat := 3

@[ext]
structure SteerResult (K : Type u) : Type u where
  /-- angular velocity; `0` is no change -/
  steering : K
  /-- surrounded -/
  blocked : Bool

variable [LinearOrder K] [CMath K]

/-- The echoes of a scan: range and angle. -/
def ScanData.echoes (scan : ScanData K) : List (K × K) :=
  scan.beams.filter fun (r, _) => 0 < r

/-- `nearest_in_goal_fov`: `none` is infinite. -/
def VfhParams.nearestInGoalFov (p : VfhParams K) (scan : ScanData K) (goalAngle : K) : Option K :=
  ((scan.echoes.filter fun (_, a) => |wrap (a - goalAngle)| ≤ p.fovHalf).map Prod.fst).min?

/-- The width of a sector. -/
def VfhParams.binWidth (p : VfhParams K) : K := 2.0 * CMath.pi / p.binCount

/-- An obstacle is near the goal bearing. -/
def VfhParams.Engaged (p : VfhParams K) (scan : ScanData K) (goalAngle : K) : Prop :=
  ∃ d ∈ p.nearestInGoalFov scan goalAngle, d ≤ p.activeRange

instance (p : VfhParams K) (scan : ScanData K) (goalAngle : K) :
    Decidable (p.Engaged scan goalAngle) :=
  inferInstanceAs (Decidable (∃ d ∈ p.nearestInGoalFov scan goalAngle, _))

/-- A sector whose nearest echo is far enough; `none` is infinite. -/
def VfhParams.passable (p : VfhParams K) (bin : Option K) : Bool :=
  bin.all fun r => decide (p.passableThreshold < r)

/-- The maximal runs of `true`: index of the first entry, and length. The run
that is being read is `current`. -/
def passableRuns : List Bool → Nat → Option (Nat × Nat) → List (Nat × Nat)
  | [], _, current => current.toList
  | true :: bins, i, some (start, count) => passableRuns bins (i + 1) (some (start, count + 1))
  | true :: bins, i, none => passableRuns bins (i + 1) (some (i, 1))
  | false :: bins, i, current => current.toList ++ passableRuns bins (i + 1) none

/-- The center of a run of sectors. -/
def VfhParams.gapCenter (p : VfhParams K) (run : Nat × Nat) : K :=
  wrap (-CMath.pi + ((run.1 : K) + (run.2 : K) / 2.0 + 0.5) * p.binWidth)

/-- `best_gap_center`: the center closest to the goal bearing; `none` is
infinite. -/
def VfhParams.bestGapCenter (p : VfhParams K) (bins : List (Option K)) (goalAngle : K) : Option K :=
  let gaps := (passableRuns (bins.map p.passable) 0 none).filter fun run => p.minGapBins ≤ run.2
  let best := gaps.foldl (fun (best : Option (K × K)) run =>
    let center := p.gapCenter run
    let score := |wrap (center - goalAngle)|
    match best with
    | some (_, bestScore) => if score < bestScore then some (center, score) else best
    | none => some (center, score)) none
  best.map Prod.fst

variable [FloorRing K]

/-- The sector that an angle is converted to, before it is clamped. -/
def VfhParams.binOf (p : VfhParams K) (angle : K) : Int :=
  truncate ((wrap angle + CMath.pi) / p.binWidth)

/-- The index of an existing sector. -/
def VfhParams.sector (p : VfhParams K) (bin : Int) : Nat := (clamp bin 0 (p.binCount - 1)).toNat

/-- `build_histogram`: the nearest echo of each sector. -/
def VfhParams.histogram (p : VfhParams K) (scan : ScanData K) : List (Option K) :=
  scan.echoes.foldl (fun bins (r, a) => bins.modify (p.sector (p.binOf a)) fun bin =>
    some (bin.elim r fun nearest => min nearest r)) (.replicate p.binCount none)

/-- `gap_passable_at`: the sector of an angle and its neighbours are passable. -/
def VfhParams.gapPassableAt (p : VfhParams K) (bins : List (Option K)) (angle : K) : Bool :=
  [-1, 0, 1].all fun off => (bins[p.sector (p.binOf angle + off)]?).all p.passable

/-- The gap that is steered to, which becomes the memory. -/
def VfhParams.chooseGap (p : VfhParams K) (bins : List (Option K)) (lastGapCenter : Option K)
    (fresh : K) : K :=
  match lastGapCenter with
  | some last => if p.gapPassableAt bins last then last else fresh
  | none => fresh

/-- `VfhAvoidance::steer`: the result, and the new memory. The robot must be moving and the goal
bearing engaged, or nothing is done and the memory stays; without a gap it is surrounded, and the
memory is dropped; else the chosen gap is steered to and remembered. -/
def VfhParams.steer (p : VfhParams K) (lastGapCenter : Option K) (scan : ScanData K)
    (goalAngle cmdV : K) : SteerResult K × Option K :=
  if cmdV ≤ p.minLinear then (⟨0, false⟩, lastGapCenter)
  else if ¬ p.Engaged scan goalAngle then (⟨0, false⟩, lastGapCenter)
  else
    let bins := p.histogram scan
    match p.bestGapCenter bins goalAngle with
    | none => (⟨0, true⟩, none)
    | some fresh =>
      let chosen := p.chooseGap bins lastGapCenter fresh
      (⟨clamp (2.0 * chosen) (-p.maxSteering) p.maxSteering, false⟩, some chosen)

end AmrFramework.Execution
