import AmrFramework.GuardContract
import AmrFramework.Ieee

/-!
# The collision guard and the special values

The guard of the collision guard module, over numbers that may be infinite or not
a number: the scan and the command are what some other node sent, and the
parameters are what somebody configured.

* `limit_isFinite` — when the output is a number;
* `Refines` — where everything but the ranges is finite, this guard and the exact
  one take the same steps.

The functions are the same as those of the exact guard, line by line, and differ in how a number
is compared and computed with. They are written again and not made generic, because a comparison
and its negation are two different conditions here, and which of them the source has is the
point.
-/

namespace AmrFramework.Execution

universe u

open Ieee (fin inf nan)

variable {K : Type u}

/-- `ScanData`, with ranges as they are received. -/
structure IeeeScan (K : Type u) : Type u where
  ranges : List (Ieee K) := []
  angleMin : Ieee K
  angleIncrement : Ieee K

variable [Field K]

/-- `CollisionGuard::Params`, where every number may be anything a parameter server accepts. -/
structure IeeeParams (K : Type u) [Field K] : Type u where
  stopDist : Ieee K := fin 0.30
  safeDist : Ieee K := fin 0.80
  fovHalf : Ieee K := fin 0.7854
  rangeMax : Ieee K := fin 20.0
  staleTimeoutNs : Int := 500000000
  minValidEchoes : Int := kDefaultMinValidEchoes
  crawlSpeed : Ieee K := fin 0.02

/-- The data members of `CollisionGuard`. -/
structure IeeeGuard (K : Type u) [Field K] : Type u where
  params : IeeeParams K := {}
  scan : IeeeScan K := ⟨[], fin 0.0, fin 0.0⟩
  recvTime : Option Int := none
  lastOkTime : Option Int := none
  lastStop : Bool := false

/-- `set_scan`. -/
def IeeeGuard.setScan (g : IeeeGuard K) (scan : IeeeScan K) (now : Int) : IeeeGuard K :=
  { g with scan := scan, recvTime := some now }

variable [LinearOrder K]

/-- The body of the loop of `nearest_in_fov_locked`. -/
def IeeeGuard.nearer (g : IeeeGuard K) (best : Ieee K) (beam : Ieee K × Nat) : Ieee K :=
  let (r, i) := beam
  if ¬ r.IsFinite ∨ r ≤ fin 0 ∨ g.params.rangeMax < r then best
  -- an angle that is not a number is not beyond the field of view
  else if g.params.fovHalf < Ieee.abs (g.scan.angleMin + fin (i : K) * g.scan.angleIncrement)
    then best
  else Ieee.min best r

/-- `nearest_in_fov_locked`. -/
def IeeeGuard.nearestInFov (g : IeeeGuard K) : Ieee K :=
  g.scan.ranges.zipIdx.foldl g.nearer (inf false)

/-- `count_valid_locked`. -/
def IeeeGuard.countValid (g : IeeeGuard K) : Nat :=
  g.scan.ranges.countP fun r => r.IsFinite ∧ fin 0 < r ∧ r ≤ g.params.rangeMax

/-- The scan, if there is one, forces a stop. -/
def IeeeGuard.Stops (g : IeeeGuard K) (now : Int) : Prop :=
  ∃ recv ∈ g.recvTime,
    g.params.staleTimeoutNs < now - recv ∨ g.scan.ranges = [] ∨
      g.nearestInFov ≤ g.params.stopDist ∨
      (0 < g.params.minValidEchoes ∧ g.countValid < g.params.minValidEchoes)

instance (g : IeeeGuard K) (now : Int) : Decidable (g.Stops now) :=
  inferInstanceAs (Decidable (∃ recv ∈ g.recvTime, _))

/-- An obstacle in front is within `safe_dist`. -/
def IeeeGuard.Near (g : IeeeGuard K) : Prop :=
  g.nearestInFov.IsFinite ∧ g.nearestInFov ≤ g.params.safeDist

instance (g : IeeeGuard K) : Decidable g.Near := inferInstanceAs (Decidable (_ ∧ _))

/-- The forward speed that `clamp` returns. -/
def IeeeGuard.limit (g : IeeeGuard K) (cmdV : Ieee K) (now : Int) : Ieee K :=
  if g.Stops now then fin 0
  else if g.Near then
    let t := (g.nearestInFov - g.params.stopDist) / (g.params.safeDist - g.params.stopDist)
    cmdV * Ieee.clamp t (fin 0) (fin 1)
  else cmdV

/-- `CollisionGuard::clamp`. -/
def IeeeGuard.clamp (g : IeeeGuard K) (cmdV : Ieee K) (now : Int) : Ieee K × IeeeGuard K :=
  let out := g.limit cmdV now
  let pressed := g.Stops now ∨ g.Near
  (out,
    { g with
      lastStop := decide (g.Stops now)
      lastOkTime := if ¬ pressed ∨ g.params.crawlSpeed ≤ out then some now else g.lastOkTime })

/-! ## When the output is finite

There are two ways for the output to be no number: the command is none, or the slowdown divides
something that is none. The second one needs an echo that is near, and then everything but
`stop_dist` has been compared successfully. -/

/-- Before the first scan there is nothing in front. -/
def IeeeGuard.Blank (g : IeeeGuard K) : Prop := g.recvTime = none → g.scan.ranges = []

variable {g : IeeeGuard K}

/-- What is near was seen in a scan. -/
theorem recvTime_of_near (hblank : g.Blank) (hnear : g.Near) : ∃ recv, g.recvTime = some recv := by
  cases hrecv : g.recvTime with
  | some recv => exact ⟨recv, rfl⟩
  | none =>
    have hinf : g.nearestInFov = inf false := by
      rw [IeeeGuard.nearestInFov, hblank hrecv]
      rfl
    have hfinite := hnear.1
    rw [hinf] at hfinite
    exact hfinite.elim

variable [IsStrictOrderedRing K]

/-- The slowdown is a number unless `stop_dist` is none: the nearest echo is
finite and beyond `stop_dist`, and within `safe_dist`. -/
theorem slowdown_ne_nan {x : K} {stop safe : Ieee K} (hstop : ¬ fin x ≤ stop)
    (hsafe : fin x ≤ safe) : (fin x - stop) / (safe - stop) ≠ nan ↔ stop.IsFinite := by
  cases stop with
  | nan => simp
  | inf s =>
    cases s with
    | false => exact absurd rfl hstop
    | true =>
      refine iff_of_false (not_not.mpr ?_) id
      cases safe with
      | nan => rfl
      | inf t => cases t <;> rfl
      | fin y => rfl
  | fin s =>
    refine iff_of_true ?_ trivial
    cases safe with
    | nan => exact absurd hsafe (Ieee.not_le_nan _)
    | inf t => exact nofun
    | fin y =>
      have hsx : s < x := not_le.mp hstop
      have hwidth : y - s ≠ 0 := (sub_pos.mpr (hsx.trans_le hsafe)).ne'
      rw [Ieee.fin_sub_fin, Ieee.fin_sub_fin, Ieee.fin_div_fin _ hwidth]
      exact nofun

/-- **When the output is a number**: the guard stops, or the command is one and no slowdown is
computed from a `stop_dist` that is none. -/
theorem limit_isFinite (hblank : g.Blank) (v : Ieee K) (now : Int) :
    (g.limit v now).IsFinite ↔
      g.Stops now ∨ (v.IsFinite ∧ (g.Near → g.params.stopDist.IsFinite)) := by
  rw [IeeeGuard.limit]
  by_cases hstops : g.Stops now
  · rw [if_pos hstops]
    exact iff_of_true trivial (.inl hstops)
  · rw [if_neg hstops, or_iff_right hstops]
    by_cases hnear : g.Near
    · obtain ⟨recv, hrecv⟩ := recvTime_of_near hblank hnear
      obtain ⟨x, hx⟩ := Ieee.isFinite_iff.mp hnear.1
      have hstop : ¬ fin x ≤ g.params.stopDist := fun hle =>
        hstops ⟨recv, hrecv, .inr (.inr (.inl (hx ▸ hle)))⟩
      have hsafe : fin x ≤ g.params.safeDist := hx ▸ hnear.2
      rw [if_pos hnear, Ieee.isFinite_mul, Ieee.isFinite_clamp, hx, slowdown_ne_nan hstop hsafe]
      exact and_congr_right fun _ => ⟨fun h _ => h, fun h => h hnear⟩
    · rw [if_neg hnear]
      exact ⟨fun h => ⟨h, fun hn => absurd hn hnear⟩, fun h => h.1⟩

/-! ## The exact guard

`Refines` relates a state of this guard with one of the exact guard, and each function is shown
to take related states to the same result. Ranges may be anything, since both drop what is not
finite. -/

/-- The value of a finite number. -/
def toOption : Ieee K → Option K
  | .fin x => some x
  | .inf _ => none
  | .nan => none

/-- Parameters all of which are finite. -/
def GuardParams.toIeee (p : GuardParams K) : IeeeParams K where
  stopDist := fin p.stopDist
  safeDist := fin p.safeDist
  fovHalf := fin p.fovHalf
  rangeMax := fin p.rangeMax
  staleTimeoutNs := p.staleTimeoutNs
  minValidEchoes := p.minValidEchoes
  crawlSpeed := fin p.crawlSpeed

/-- The two guards hold the same, a range that is not finite being no range. While this is so,
and nothing overflows, they return the same. -/
structure Refines (g : IeeeGuard K) (e : CollisionGuard K) : Prop where
  params : g.params = e.params.toIeee
  ranges : g.scan.ranges.map toOption = e.scan.ranges
  angleMin : g.scan.angleMin = fin e.scan.angleMin
  angleIncrement : g.scan.angleIncrement = fin e.scan.angleIncrement
  recvTime : g.recvTime = e.recvTime
  lastOkTime : g.lastOkTime = e.lastOkTime
  lastStop : g.lastStop = e.lastStop

variable {e : CollisionGuard K}

omit [Field K] [IsStrictOrderedRing K] in
/-- The minimum of three, whichever two come first. -/
theorem min_min_fin (best : Ieee K) (x y : K) :
    Ieee.min (Ieee.min best (fin x)) (fin y) = Ieee.min best (fin (Min.min x y)) := by
  obtain hyx | hxy := lt_or_ge y x
  · rw [min_eq_right hyx.le]
    by_cases hx : fin x < best
    · have hy : fin y < best := by
        cases best with
        | nan => exact absurd hx (Ieee.not_lt_nan _)
        | inf s => exact hx
        | fin b => exact hyx.trans hx
      rw [show Ieee.min best (fin x) = fin x from if_pos hx,
        show Ieee.min best (fin y) = fin y from if_pos hy]
      exact if_pos hyx
    · rw [show Ieee.min best (fin x) = best from if_neg hx]
  · rw [min_eq_left hxy]
    by_cases hx : fin x < best
    · rw [show Ieee.min best (fin x) = fin x from if_pos hx]
      exact if_neg (not_lt.mpr hxy)
    · have hy : ¬ fin y < best := by
        cases best with
        | nan => exact Ieee.not_lt_nan _
        | inf s => exact hx
        | fin b => exact not_lt.mpr ((not_lt.mp hx).trans hxy)
      rw [show Ieee.min best (fin x) = best from if_neg hx]
      exact if_neg hy

/-- The echo of a beam, if it is in the field of view. -/
def CollisionGuard.echo (e : CollisionGuard K) (beam : Ieee K × Nat) : Option K :=
  (toOption beam.1).bind fun x =>
    if e.params.Echo x ∧ |e.scan.angleMin + beam.2 * e.scan.angleIncrement| ≤ e.params.fovHalf
    then some x else none

omit [IsStrictOrderedRing K] in
/-- One beam, -/
theorem nearer_of_refines (h : Refines g e) (best : Ieee K) (beam : Ieee K × Nat) :
    g.nearer best beam = (e.echo beam).elim best fun x => Ieee.min best (fin x) := by
  obtain ⟨r, i⟩ := beam
  cases r with
  | nan => rfl
  | inf s => rfl
  | fin x =>
    have hangle : Ieee.abs (g.scan.angleMin + fin (i : K) * g.scan.angleIncrement) =
        fin |e.scan.angleMin + i * e.scan.angleIncrement| := by
      rw [h.angleMin, h.angleIncrement]
      rfl
    simp only [IeeeGuard.nearer, CollisionGuard.echo, toOption, hangle, h.params,
      GuardParams.toIeee, Option.bind_some, Ieee.isFinite_fin, not_true_eq_false, false_or,
      Ieee.fin_le_fin, Ieee.fin_lt_fin]
    by_cases hecho : e.params.Echo x
    · have hskip : ¬ (x ≤ 0 ∨ e.params.rangeMax < x) := by
        rw [not_or, not_le, not_lt]
        exact hecho
      rw [if_neg hskip]
      by_cases hfov : |e.scan.angleMin + i * e.scan.angleIncrement| ≤ e.params.fovHalf
      · rw [if_neg (not_lt.mpr hfov), if_pos ⟨hecho, hfov⟩]
        rfl
      · rw [if_pos (not_le.mp hfov), if_neg fun hin => hfov hin.2]
        rfl
    · have hskip : x ≤ 0 ∨ e.params.rangeMax < x := by
        by_contra hnot
        rw [not_or, not_le, not_lt] at hnot
        exact hecho hnot
      rw [if_pos hskip, if_neg fun hin => hecho hin.1]
      rfl

omit [IsStrictOrderedRing K] in
/-- The loop computes the minimum of the echoes. -/
theorem foldl_nearer (h : Refines g e) (beams : List (Ieee K × Nat)) (best : Ieee K) :
    beams.foldl g.nearer best =
      (beams.filterMap e.echo).foldl (fun best x => Ieee.min best (fin x)) best := by
  induction beams generalizing best with
  | nil => rfl
  | cons beam beams ih =>
    rw [List.foldl_cons, ih, nearer_of_refines h, List.filterMap_cons]
    cases e.echo beam <;> rfl

omit [Field K] [IsStrictOrderedRing K] in
/-- the minimum of finite numbers, -/
theorem foldl_min_fin (xs : List K) (best : Ieee K) (x : K) :
    xs.foldl (fun best x => Ieee.min best (fin x)) (Ieee.min best (fin x)) =
      Ieee.min best (fin (xs.foldl Min.min x)) := by
  induction xs generalizing x with
  | nil => rfl
  | cons y xs ih => rw [List.foldl_cons, List.foldl_cons, min_min_fin, ih]

omit [IsStrictOrderedRing K] in
/-- and so the nearest echo, or infinity if there is none. -/
theorem nearestInFov_of_refines (h : Refines g e) :
    g.nearestInFov = e.nearestInFov.elim (inf false) fin := by
  have hechoes : e.nearestInFov = (g.scan.ranges.zipIdx.filterMap e.echo).min? := by
    refine congrArg List.min? ?_
    rw [ScanData.beams, ← h.ranges, List.zipIdx_map, List.filterMap_map, List.filter_filterMap,
      List.map_filterMap]
    refine List.filterMap_congr fun beam _ => ?_
    obtain ⟨r, i⟩ := beam
    cases r with
    | nan => rfl
    | inf s => rfl
    | fin x =>
      simp only [CollisionGuard.echo, toOption, Function.comp_apply, Prod.map_apply, id_eq,
        Option.map_some, Option.bind_some, Option.filter_some, decide_eq_true_eq]
      split <;> rfl
  rw [IeeeGuard.nearestInFov, foldl_nearer h, hechoes]
  cases g.scan.ranges.zipIdx.filterMap e.echo with
  | nil => rfl
  | cons x xs =>
    rw [List.foldl_cons, foldl_min_fin, List.min?_cons']
    exact if_pos rfl

omit [IsStrictOrderedRing K] in
/-- As many beams are valid, -/
theorem countValid_of_refines (h : Refines g e) : g.countValid = e.countValid := by
  rw [countValid_eq, GuardParams.validEchoes, ← h.ranges, List.countP_map, IeeeGuard.countValid]
  refine List.countP_congr fun r _ => ?_
  cases r with
  | nan => simp [toOption]
  | inf s => simp [toOption]
  | fin x =>
    simp only [toOption, h.params, GuardParams.toIeee, Function.comp_apply, Option.any_some,
      Ieee.isFinite_fin, true_and, Ieee.fin_lt_fin, Ieee.fin_le_fin, decide_eq_true_eq]
    exact Iff.rfl

omit [IsStrictOrderedRing K] in
/-- so the two stop together -/
theorem stops_of_refines (h : Refines g e) (now : Int) : g.Stops now ↔ e.Stops now := by
  have hnear : g.nearestInFov ≤ g.params.stopDist ↔
      ∃ d ∈ e.nearestInFov, d ≤ e.params.stopDist := by
    rw [nearestInFov_of_refines h, h.params]
    cases e.nearestInFov <;> simp [GuardParams.toIeee]
  have hempty : g.scan.ranges = [] ↔ e.scan.ranges = [] := by
    rw [← h.ranges, List.map_eq_nil_iff]
  rw [IeeeGuard.Stops, CollisionGuard.Stops, hnear, hempty, h.recvTime, countValid_of_refines h,
    h.params]
  rfl

omit [IsStrictOrderedRing K] in
/-- and slow down together, -/
theorem near_of_refines (h : Refines g e) : g.Near ↔ e.Near := by
  rw [IeeeGuard.Near, CollisionGuard.Near, nearestInFov_of_refines h, h.params]
  cases e.nearestInFov <;> simp [GuardParams.toIeee]

omit [Field K] [IsStrictOrderedRing K] in
theorem clamp_fin (t lo hi : K) :
    Ieee.clamp (fin t) (fin lo) (fin hi) = fin (AmrFramework.clamp t lo hi) := by
  simp only [Ieee.clamp, AmrFramework.clamp, Ieee.fin_lt_fin]
  split
  · rfl
  · split <;> rfl

/-- and the speed that is left is the same. -/
theorem limit_of_refines (h : Refines g e) (hblank : g.Blank) (v : K) (now : Int) :
    g.limit (fin v) now = fin (e.limit v now) := by
  by_cases hstops : e.Stops now
  · rw [IeeeGuard.limit, if_pos ((stops_of_refines h now).mpr hstops), CollisionGuard.limit,
      if_pos hstops]
  · rw [IeeeGuard.limit, if_neg fun hs => hstops ((stops_of_refines h now).mp hs)]
    by_cases hnear : e.Near
    · obtain ⟨recv, hrecv⟩ := recvTime_of_near hblank ((near_of_refines h).mpr hnear)
      obtain ⟨d, hd, hsafe⟩ := hnear
      obtain ⟨⟨i, hi⟩, -⟩ := nearestInFov_eq_some.mp hd
      have hstop := stopDist_lt_of_not_stops (h.recvTime ▸ hrecv) hstops hi
      have hwidth : e.params.safeDist - e.params.stopDist ≠ 0 :=
        (sub_pos.mpr (hstop.trans_le hsafe)).ne'
      rw [if_pos ((near_of_refines h).mpr ⟨d, hd, hsafe⟩), nearestInFov_of_refines h, hd, h.params,
        limit_of_nearest hstops hd, GuardParams.ramp, if_pos hsafe]
      simp only [GuardParams.toIeee, Option.elim_some, Ieee.fin_sub_fin,
        Ieee.fin_div_fin _ hwidth, clamp_fin, Ieee.fin_mul_fin]
    · rw [if_neg fun hn => hnear ((near_of_refines h).mp hn)]
      refine congrArg fin (limit_of_far hstops fun i r hr => ?_).symm
      obtain ⟨d, hd, hdr⟩ := exists_nearest_le hr
      exact (not_le.mp fun hle => hnear ⟨d, hd, hle⟩).trans_le hdr

/-- **The exact guard is the guard** where everything but the ranges is finite:
the two return the same speed and stay alike. -/
theorem clamp_of_refines (h : Refines g e) (hblank : g.Blank) (v : K) (now : Int) :
    (g.clamp (fin v) now).1 = fin (e.clamp v now).1 ∧
      Refines (g.clamp (fin v) now).2 (e.clamp v now).2 := by
  have hlimit := limit_of_refines h hblank v now
  have hcrawl : g.params.crawlSpeed ≤ g.limit (fin v) now ↔
      e.params.crawlSpeed ≤ e.limit v now := by
    rw [hlimit, h.params]
    rfl
  refine ⟨hlimit, h.params, h.ranges, h.angleMin, h.angleIncrement, h.recvTime, ?_, ?_⟩
  · simp only [IeeeGuard.clamp, CollisionGuard.clamp, stops_of_refines h, near_of_refines h, hcrawl,
      h.lastOkTime]
  · simp only [IeeeGuard.clamp, CollisionGuard.clamp, stops_of_refines h]

end AmrFramework.Execution
