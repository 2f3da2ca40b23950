import AmrFramework.CMath

/-!
# The collision guard

`CollisionGuard` scales the forward speed down when the scan shows something in
front, and stops on a scan that is old, empty or blind. It also measures for how
long an obstacle has kept the robot below crawl speed.

Times are nanoseconds of the steady clock; `none` is `time_point::min()`, which
stands for "never". A range of `none` is an infinite one or not a number.

All that is read of the guard from outside is what `clamp` returns, whether the most recent clamp
was a forced stop, and the time of the block. The scan itself is kept as it came in, and
evaluated anew in every call.
-/

namespace AmrFramework.Execution

universe u

variable {K : Type u}

/-- `kDefaultMinValidEchoes`. -/
def kDefaultMinValidEchoes : Int := 50

structure ScanData (K : Type u) : Type u where
  ranges : List (Option K)
  angleMin : K
  angleIncrement : K

/-- The beams with a finite range: the range and the angle. The angle is computed from the index
in the whole list, so a beam without a range still takes its place. -/
def ScanData.beams [Ring K] (scan : ScanData K) : List (K × K) :=
  scan.ranges.zipIdx.filterMap fun (range, i) =>
    range.map fun r => (r, scan.angleMin + i * scan.angleIncrement)

variable [Field K]

/-- `CollisionGuard::Params`. -/
structure GuardParams (K : Type u) [Field K] : Type u where
  /-- hard stop within this distance -/
  stopDist : K := 0.30
  /-- linear slowdown within this distance -/
  safeDist : K := 0.80
  fovHalf : K := 0.7854
  /-- ranges beyond are no echo -/
  rangeMax : K := 20.0
  staleTimeoutNs : Int := 500000000
  /-- fewer echoes are a blind sensor; `0` disables the test -/
  minValidEchoes : Int := kDefaultMinValidEchoes
  crawlSpeed : K := 0.02

/-- The data members. The mutex around them is left out, since every call takes it for its whole
length. -/
structure CollisionGuard (K : Type u) [Field K] : Type u where
  params : GuardParams K := {}
  scan : ScanData K := ⟨[], 0.0, 0.0⟩
  recvTime : Option Int := none
  /-- last un-stopped clamp -/
  lastOkTime : Option Int := none
  /-- the most recent clamp was a forced stop -/
  lastStop : Bool := false

/-- `set_scan`: the scan and the time at which it came. The hold timer is not touched, though it
may be measuring from the time that is overwritten here. -/
def CollisionGuard.setScan (g : CollisionGuard K) (scan : ScanData K) (now : Int) :
    CollisionGuard K :=
  { g with scan := scan, recvTime := some now }

/-- `set_params`. -/
def CollisionGuard.setParams (g : CollisionGuard K) (p : GuardParams K) : CollisionGuard K :=
  { g with params := p }

/-- `clear_hold`: the hold is measured from now on, and no stop is remembered. -/
def CollisionGuard.clearHold (g : CollisionGuard K) (now : Int) : CollisionGuard K :=
  { g with lastOkTime := some now, lastStop := false }

/-- `blocked_for`, in milliseconds: the time since the last clamp that let the robot go, or since
the scan if there was no such clamp. -/
def CollisionGuard.blockedFor (g : CollisionGuard K) (now : Int) : Int :=
  match g.lastOkTime, g.recvTime with
  | some ok, _ => (now - ok).tdiv 1000000
  | none, some recv => (now - recv).tdiv 1000000
  | none, none => 0

variable [LinearOrder K]

/-- A range that counts as an echo. -/
def GuardParams.Echo (p : GuardParams K) (r : K) : Prop := 0 < r ∧ r ≤ p.rangeMax

instance (p : GuardParams K) (r : K) : Decidable (p.Echo r) := inferInstanceAs (Decidable (_ ∧ _))

/-- `nearest_in_fov_locked`: `none` is infinite. An echo counts if its angle is in the field of
view, which is centred on the robot and not on the goal. -/
def CollisionGuard.nearestInFov (g : CollisionGuard K) : Option K :=
  ((g.scan.beams.filter fun (r, a) => g.params.Echo r ∧ |a| ≤ g.params.fovHalf).map Prod.fst).min?

/-- `count_valid_locked`: echoes in any direction, also behind the robot. -/
def CollisionGuard.countValid (g : CollisionGuard K) : Nat :=
  g.scan.beams.countP fun (r, _) => g.params.Echo r

/-- The scan, if there is one, forces a stop: it is stale, or empty, or shows an echo within the
stopping distance, or has too few echoes to be trusted. -/
def CollisionGuard.Stops (g : CollisionGuard K) (now : Int) : Prop :=
  ∃ recv ∈ g.recvTime,
    g.params.staleTimeoutNs < now - recv ∨ g.scan.ranges = [] ∨
      (∃ d ∈ g.nearestInFov, d ≤ g.params.stopDist) ∨
      (0 < g.params.minValidEchoes ∧ g.countValid < g.params.minValidEchoes)

instance (g : CollisionGuard K) (now : Int) : Decidable (g.Stops now) :=
  inferInstanceAs (Decidable (∃ recv ∈ g.recvTime, _))

/-- An obstacle in front is within `safe_dist`. -/
def CollisionGuard.Near (g : CollisionGuard K) : Prop :=
  ∃ d ∈ g.nearestInFov, d ≤ g.params.safeDist

instance (g : CollisionGuard K) : Decidable g.Near :=
  inferInstanceAs (Decidable (∃ d ∈ g.nearestInFov, _))

/-- The forward speed that `clamp` returns: zero at the stopping distance, unchanged from the
safe distance on, and linear in between. -/
def CollisionGuard.limit (g : CollisionGuard K) (cmdV : K) (now : Int) : K :=
  if g.Stops now then 0
  else
    match g.nearestInFov with
    | some d =>
      if d ≤ g.params.safeDist then
        cmdV * clamp ((d - g.params.stopDist) / (g.params.safeDist - g.params.stopDist)) 0 1
      else cmdV
    | none => cmdV

/-- `CollisionGuard::clamp`: the limited speed, and the guard with its two notes about this call. -/
def CollisionGuard.clamp (g : CollisionGuard K) (cmdV : K) (now : Int) : K × CollisionGuard K :=
  let out := g.limit cmdV now
  let pressed := g.Stops now ∨ g.Near
  (out,
    { g with
      lastStop := decide (g.Stops now)
      -- only a robot that moves, or is slow for its own reasons, resets the hold
      lastOkTime := if ¬ pressed ∨ g.params.crawlSpeed ≤ out then some now else g.lastOkTime })

/-- A guard that stopped returns zero. -/
theorem CollisionGuard.clamp_of_stops {g : CollisionGuard K} {cmdV : K} {now : Int}
    (h : g.Stops now) : (g.clamp cmdV now).1 = 0 := if_pos h

/-- Before the first scan the command passes. The guard cannot know that there should have been a
scan by now. -/
theorem CollisionGuard.clamp_of_no_scan {g : CollisionGuard K} {cmdV : K} {now : Int}
    (hrecv : g.recvTime = none) (hranges : g.scan.ranges = []) :
    g.clamp cmdV now = (cmdV, { g with lastStop := false, lastOkTime := some now }) := by
  have hstops : ¬ g.Stops now := by
    rintro ⟨recv, hmem, -⟩
    rw [hrecv] at hmem
    cases hmem
  have hnearest : g.nearestInFov = none := by
    simp [CollisionGuard.nearestInFov, ScanData.beams, hranges]
  have hnear : ¬ g.Near := by
    rintro ⟨d, hd, -⟩
    rw [hnearest] at hd
    cases hd
  have hlimit : g.limit cmdV now = cmdV := by
    rw [CollisionGuard.limit, if_neg hstops, hnearest]
  rw [CollisionGuard.clamp, hlimit]
  simp [hstops, hnear]

variable [IsStrictOrderedRing K]

/-- The guard only slows down. -/
theorem CollisionGuard.clamp_mem {g : CollisionGuard K} {cmdV : K} (hcmd : 0 ≤ cmdV) (now : Int) :
    0 ≤ (g.clamp cmdV now).1 ∧ (g.clamp cmdV now).1 ≤ cmdV := by
  simp only [CollisionGuard.clamp, CollisionGuard.limit]
  split
  · exact ⟨le_rfl, hcmd⟩
  · split
    · split
      · exact ⟨mul_nonneg hcmd (le_clamp zero_le_one),
          mul_le_of_le_one_right hcmd (clamp_le zero_le_one)⟩
      · exact ⟨hcmd, le_rfl⟩
    · exact ⟨hcmd, le_rfl⟩

end AmrFramework.Execution
