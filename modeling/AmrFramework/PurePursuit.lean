import AmrFramework.CMath

/-!
# Pure pursuit

`PurePursuit` steers to a waypoint that lies one lookahead distance down the
path. The search for it starts at the waypoint that was nearest before, so that
the progress along the path is the state of the tracker, and every call returns
the new one.

The path is never empty where it is searched, and its last waypoint is passed along as `back`;
what the source reads as `path.back()` is that argument. The two public calls, `track` and
`lookahead_bearing`, make the same search, so that calling both in one tick is as good as calling
one (`nearest_nearest`).
-/

namespace AmrFramework.Execution

universe u

variable {K : Type u}

structure Pose2D (K : Type u) : Type u where
  x : K
  y : K
  /-- radians -/
  theta : K

@[ext]
structure Twist2D (K : Type u) : Type u where
  linear : K
  angular : K

structure Waypoint (K : Type u) : Type u where
  x : K
  y : K

/-- `Twist2D{}`. -/
def Twist2D.zero [Zero K] : Twist2D K := ⟨0, 0⟩

/-- The position of a pose. -/
def Pose2D.position (p : Pose2D K) : Waypoint K := ⟨p.x, p.y⟩

variable [Field K]

/-- `PurePursuit::Params`, as far as they are read. -/
structure PursuitParams (K : Type u) [Field K] : Type u where
  lookahead : K := 1.5
  maxLinear : K := 0.5
  maxAngular : K := 1.0
  /-- arrived within this distance -/
  goalTolerance : K := 0.10
  /-- start decelerating within this distance -/
  slowRadius : K := 0.5

/-- Positive parameters, as all defaults are. With them a pursuit that has not arrived drives
forward. -/
structure PursuitParams.Positive [LinearOrder K] (p : PursuitParams K) : Prop where
  lookahead : 0 < p.lookahead
  maxLinear : 0 < p.maxLinear
  maxAngular : 0 < p.maxAngular
  goalTolerance : 0 < p.goalTolerance

/-- The defaults are positive. -/
theorem PursuitParams.positive_default [LinearOrder K] [IsStrictOrderedRing K] :
    ({} : PursuitParams K).Positive := by
  constructor <;> norm_num

variable [CMath K]

/-- The distance of two points. -/
def dist2d (a b : Waypoint K) : K :=
  let dx := a.x - b.x
  let dy := a.y - b.y
  CMath.sqrt (dx * dx + dy * dy)

/-- The bearing of a point in the frame of the robot. -/
def bearing (p : Waypoint K) (current : Pose2D K) : K :=
  wrap (CMath.atan2 (p.y - current.y) (p.x - current.x) - current.theta)

variable [LinearOrder K]

/-- The search for the nearest waypoint: its index and its distance. -/
def searchNearest (current : Pose2D K) : List (Waypoint K) → Nat → Nat × K → Nat × K
  | [], _, best => best
  | w :: path, i, best =>
    let d := dist2d w current.position
    searchNearest current path (i + 1) (if d < best.2 then (i, d) else best)

/-- The nearest waypoint from a given progress on. -/
def nearest (progress : Nat) (path : List (Waypoint K)) (current : Pose2D K) : Nat × K :=
  searchNearest current (path.drop progress) progress (progress, floatMax)

/-- The walk down the path until the lookahead distance is reached. -/
def walk (lookahead : K) : Waypoint K → List (Waypoint K) → Nat → K → Option (Nat × Waypoint K)
  | _, [], _, _ => none
  | prev, w :: path, i, accumulated =>
    let accumulated := accumulated + dist2d w prev
    if lookahead ≤ accumulated then some (i, w) else walk lookahead w path (i + 1) accumulated

/-- `find_lookahead`: the lookahead waypoint and its index. The path ends at
`back`. -/
def PursuitParams.findLookahead (p : PursuitParams K) (progress : Nat) (path : List (Waypoint K))
    (back : Waypoint K) (current : Pose2D K) : Nat × Waypoint K :=
  let (i, minDist) := nearest progress path current
  match path.drop i with
  | [] => (path.length - 1, back)
  | prev :: rest => (walk p.lookahead prev rest (i + 1) minDist).getD (path.length - 1, back)

/-- Turn-limited and goal-limited speed. -/
def PursuitParams.targetSpeed (p : PursuitParams K) (goalDist alpha : K) : K :=
  let curvatureLimit :=
    if 0 < p.lookahead then
      if 1e-6 < |CMath.sin alpha| then
        p.maxAngular * p.lookahead / (2.0 * |CMath.sin alpha|)
      else p.maxLinear
    else p.maxLinear
  let vTurn := min p.maxLinear curvatureLimit
  let vGoal := if goalDist < p.slowRadius then min p.maxLinear (goalDist * 2.0) else p.maxLinear
  clamp (min vTurn vGoal) 0 p.maxLinear

/-- `PurePursuit::track`: the twist, and the new progress. -/
def PursuitParams.track (p : PursuitParams K) (progress : Nat) (path : List (Waypoint K))
    (current : Pose2D K) : Twist2D K × Nat :=
  match path.getLast? with
  | none => (.zero, progress)
  | some goal =>
    let goalDist := dist2d goal current.position
    if goalDist < p.goalTolerance then (.zero, progress)
    else
      let alpha := bearing (p.findLookahead progress path goal current).2 current
      let twist : Twist2D K :=
        if goalDist < p.lookahead then
          ⟨min (min p.maxLinear 0.1) goalDist, clamp (2.0 * alpha) (-p.maxAngular) p.maxAngular⟩
        else
          let linear := p.targetSpeed goalDist alpha
          ⟨linear, clamp (2.0 * linear * CMath.sin alpha / p.lookahead)
            (-p.maxAngular) p.maxAngular⟩
      (twist, (nearest progress path current).1)

/-- `PurePursuit::lookahead_bearing`, and the new progress. -/
def PursuitParams.lookaheadBearing (p : PursuitParams K) (progress : Nat)
    (path : List (Waypoint K)) (current : Pose2D K) : K × Nat :=
  match path.getLast? with
  | none => (0, progress)
  | some back =>
    (bearing (p.findLookahead progress path back current).2 current,
      (nearest progress path current).1)

/-! ## The search

The loop keeps the best distance so far and replaces it only by a smaller one, so of several
nearest waypoints it finds the first. It starts from the largest `float`, so that a waypoint is
found only if it is nearer than that. -/

/-- A waypoint that comes first, but is farther away, changes nothing. -/
theorem first_nearest_cons {current : Pose2D K} {path : List (Waypoint K)}
    {u w : Waypoint K} {j : Nat} (hu : dist2d w current.position < dist2d u current.position)
    (hle : ∀ v ∈ path, dist2d w current.position ≤ dist2d v current.position)
    (hfirst : ∀ j' < j, ∀ v, path[j']? = some v →
      dist2d w current.position < dist2d v current.position) :
    (∀ v ∈ u :: path, dist2d w current.position ≤ dist2d v current.position) ∧
      ∀ j' < j + 1, ∀ v, (u :: path)[j']? = some v →
        dist2d w current.position < dist2d v current.position := by
  refine ⟨List.forall_mem_cons.mpr ⟨hu.le, hle⟩, ?_⟩
  rintro (_ | j') hj' v hv
  · obtain rfl := Option.some.inj hv
    exact hu
  · exact hfirst j' (Nat.lt_of_succ_lt_succ hj') v hv

/-- The search keeps the best so far, or finds the first of the nearest
waypoints. -/
theorem searchNearest_cases (current : Pose2D K) (path : List (Waypoint K)) (i : Nat)
    (best : Nat × K) :
    (searchNearest current path i best = best ∧
        ∀ w ∈ path, best.2 ≤ dist2d w current.position) ∨
      ∃ j w, path[j]? = some w ∧
        searchNearest current path i best = (i + j, dist2d w current.position) ∧
        dist2d w current.position < best.2 ∧
        (∀ v ∈ path, dist2d w current.position ≤ dist2d v current.position) ∧
        ∀ j' < j, ∀ v, path[j']? = some v →
          dist2d w current.position < dist2d v current.position := by
  induction path generalizing i best with
  | nil => exact .inl ⟨rfl, by simp⟩
  | cons u path ih =>
    have hindex : ∀ j, i + 1 + j = i + (j + 1) := fun j => by omega
    rw [searchNearest]
    by_cases hu : dist2d u current.position < best.2
    · rw [if_pos hu]
      right
      rcases ih (i + 1) (i, dist2d u current.position) with
        ⟨hkept, hall⟩ | ⟨j, w, hw, hfound, hlt, hle, hfirst⟩
      · -- `u` stays the best
        exact ⟨0, u, rfl, hkept, hu, List.forall_mem_cons.mpr ⟨le_rfl, hall⟩, by simp⟩
      · exact ⟨j + 1, w, hw, hindex j ▸ hfound, hlt.trans hu, first_nearest_cons hlt hle hfirst⟩
    · rw [if_neg hu]
      have hge := not_lt.mp hu
      rcases ih (i + 1) best with ⟨hkept, hall⟩ | ⟨j, w, hw, hfound, hlt, hle, hfirst⟩
      · exact .inl ⟨hkept, List.forall_mem_cons.mpr ⟨hge, hall⟩⟩
      · exact .inr ⟨j + 1, w, hw, hindex j ▸ hfound, hlt,
          first_nearest_cons (hlt.trans_le hge) hle hfirst⟩

/-- The waypoint `w` at index `n` is what the search finds: the first of the
nearest ones from `progress` on. -/
structure FindsNearest (progress : Nat) (path : List (Waypoint K)) (current : Pose2D K) (n : Nat)
    (w : Waypoint K) : Prop where
  progress_le : progress ≤ n
  at_index : path[n]? = some w
  found : nearest progress path current = (n, dist2d w current.position)
  le : ∀ j v, progress ≤ j → path[j]? = some v →
    dist2d w current.position ≤ dist2d v current.position
  first : ∀ j v, progress ≤ j → j < n → path[j]? = some v →
    dist2d w current.position < dist2d v current.position

/-- The search finds a waypoint when one is in reach. -/
theorem exists_findsNearest {progress k : Nat} {path : List (Waypoint K)} {current : Pose2D K}
    {v : Waypoint K} (hk : progress ≤ k) (hv : path[k]? = some v)
    (hreach : dist2d v current.position < floatMax) :
    ∃ n w, FindsNearest progress path current n w := by
  have hdrop : ∀ j, progress ≤ j → (path.drop progress)[j - progress]? = path[j]? := by
    intro j hj
    rw [List.getElem?_drop, Nat.add_sub_of_le hj]
  have hmem : v ∈ path.drop progress := List.mem_of_getElem? ((hdrop k hk).trans hv)
  rcases searchNearest_cases current (path.drop progress) progress (progress, floatMax) with
    ⟨-, hall⟩ | ⟨j, w, hw, hfound, -, hle, hfirst⟩
  · exact absurd hreach (not_lt.mpr (hall v hmem))
  · refine ⟨progress + j, w, Nat.le_add_right .., ?_, hfound, ?_, ?_⟩
    · rw [← List.getElem?_drop, hw]
    · intro i u hi hu
      exact hle u (List.mem_of_getElem? ((hdrop i hi).trans hu))
    · intro i u hi hlt hu
      exact hfirst (i - progress) (by omega) u ((hdrop i hi).trans hu)

/-- The progress never falls. -/
theorem progress_le_nearest (progress : Nat) (path : List (Waypoint K)) (current : Pose2D K) :
    progress ≤ (nearest progress path current).1 := by
  rcases searchNearest_cases current (path.drop progress) progress (progress, floatMax) with
    ⟨hkept, -⟩ | ⟨j, w, -, hfound, -⟩
  · rw [nearest, hkept]
  · rw [nearest, hfound]
    exact Nat.le_add_right ..

/-- A waypoint that is closer than all before it is not behind the nearest. -/
theorem le_nearest {progress k : Nat} {path : List (Waypoint K)} {current : Pose2D K}
    {w : Waypoint K} (hw : path[k]? = some w) (hreach : dist2d w current.position < floatMax)
    (hcloser : ∀ j v, progress ≤ j → j < k → path[j]? = some v →
      dist2d w current.position < dist2d v current.position) :
    k ≤ (nearest progress path current).1 := by
  obtain hk | hk := Nat.le_total progress k
  · obtain ⟨n, u, hn⟩ := exists_findsNearest hk hw hreach
    rw [hn.found]
    by_contra hlt
    have hnearer := hcloser n u hn.progress_le (not_le.mp hlt) hn.at_index
    exact absurd (hn.le k w hk hw) (not_le.mpr hnearer)
  · exact hk.trans (progress_le_nearest progress path current)

/-- A second search by the same pose finds the same waypoint. -/
theorem nearest_nearest (progress : Nat) (path : List (Waypoint K)) (current : Pose2D K) :
    nearest (nearest progress path current).1 path current = nearest progress path current := by
  by_cases hreach : ∃ k v, progress ≤ k ∧ path[k]? = some v ∧ dist2d v current.position < floatMax
  · obtain ⟨k, v, hk, hv, hv_reach⟩ := hreach
    obtain ⟨n, w, hn⟩ := exists_findsNearest hk hv hv_reach
    have hw_reach := (hn.le k v hk hv).trans_lt hv_reach
    obtain ⟨m, u, hm⟩ := exists_findsNearest le_rfl hn.at_index hw_reach
    obtain rfl | hlt := hm.progress_le.eq_or_lt
    · have hsame : u = w := Option.some.inj (hm.at_index.symm.trans hn.at_index)
      rw [hn.found, hm.found, hsame]
    · have hnearer := hm.first n w le_rfl hlt hn.at_index
      exact absurd (hn.le m u (hn.progress_le.trans hlt.le) hm.at_index) (not_le.mpr hnearer)
  · rcases searchNearest_cases current (path.drop progress) progress (progress, floatMax) with
      ⟨hkept, -⟩ | ⟨j, w, hw, -, hw_reach, -⟩
    · have hfound : nearest progress path current = (progress, floatMax) := hkept
      rw [hfound]
      exact hfound
    · rw [List.getElem?_drop] at hw
      exact absurd ⟨progress + j, w, Nat.le_add_right .., hw, hw_reach⟩ hreach

/-! ## What `track` returns

The speed is a minimum of three limits, all of them positive away from the goal: the configured
one, the one of the curvature, and the one that slows down in front of the goal. -/

variable [IsStrictOrderedRing K]

/-- Away from the goal the target speed is positive, and limited. -/
theorem PursuitParams.Positive.targetSpeed {p : PursuitParams K} (hp : p.Positive)
    {goalDist : K} (hgoal : 0 < goalDist) (alpha : K) :
    0 < p.targetSpeed goalDist alpha ∧ p.targetSpeed goalDist alpha ≤ p.maxLinear := by
  refine ⟨?_, clamp_le hp.maxLinear.le⟩
  have hmax := hp.maxLinear
  have hcurvature : 0 < (if 0 < p.lookahead then
      if 1e-6 < |CMath.sin alpha| then p.maxAngular * p.lookahead / (2.0 * |CMath.sin alpha|)
      else p.maxLinear
    else p.maxLinear) := by
    rw [if_pos hp.lookahead]
    split_ifs with hsin
    · have hpos : 0 < |CMath.sin alpha| := lt_trans (by norm_num) hsin
      exact div_pos (mul_pos hp.maxAngular hp.lookahead) (mul_pos (by norm_num) hpos)
    · exact hmax
  have hbraking : 0 < (if goalDist < p.slowRadius then min p.maxLinear (goalDist * 2.0)
      else p.maxLinear) := by
    split_ifs
    · exact lt_min hmax (mul_pos hgoal (by norm_num))
    · exact hmax
  have hpos := lt_min (lt_min hmax hcurvature) hbraking
  refine lt_of_lt_of_eq hpos (clamp_eq hpos.le ?_).symm
  exact (min_le_left _ _).trans (min_le_left _ _)

/-- `track` stops at the end of the path, and moves forward elsewhere. -/
theorem PursuitParams.Positive.track_cases {p : PursuitParams K} (hp : p.Positive)
    (progress : Nat) {path : List (Waypoint K)} {goal : Waypoint K}
    (hgoal : path.getLast? = some goal) (current : Pose2D K) :
    (dist2d goal current.position < p.goalTolerance ∧
        p.track progress path current = (.zero, progress)) ∨
      (p.goalTolerance ≤ dist2d goal current.position ∧
        0 < (p.track progress path current).1.linear ∧
        (p.track progress path current).1.linear ≤ p.maxLinear ∧
        (p.track progress path current).2 = (nearest progress path current).1) := by
  obtain hnear | hfar := lt_or_ge (dist2d goal current.position) p.goalTolerance
  · left
    refine ⟨hnear, ?_⟩
    simp only [PursuitParams.track, hgoal, if_pos hnear]
  · right
    have hdist := hp.goalTolerance.trans_le hfar
    simp only [PursuitParams.track, hgoal, if_neg (not_lt.mpr hfar)]
    refine ⟨hfar, ?_, ?_, trivial⟩
    · split_ifs
      · exact lt_min (lt_min hp.maxLinear (by norm_num)) hdist
      · exact (hp.targetSpeed hdist _).1
    · split_ifs
      · exact (min_le_left _ _).trans (min_le_left _ _)
      · exact (hp.targetSpeed hdist _).2

/-- The turn rate is limited, too. -/
theorem PursuitParams.Positive.abs_angular_le {p : PursuitParams K} (hp : p.Positive)
    (progress : Nat) (path : List (Waypoint K)) (current : Pose2D K) :
    |(p.track progress path current).1.angular| ≤ p.maxAngular := by
  have hmax := hp.maxAngular.le
  have hclamp : ∀ x : K, |clamp x (-p.maxAngular) p.maxAngular| ≤ p.maxAngular := by
    intro x
    have hle : -p.maxAngular ≤ p.maxAngular := (neg_nonpos.mpr hmax).trans hmax
    exact abs_le.mpr ⟨le_clamp hle, clamp_le hle⟩
  have hzero : |(0 : K)| ≤ p.maxAngular := abs_zero.trans_le hmax
  rcases hgoal : path.getLast? with _ | goal
  · simpa only [PursuitParams.track, hgoal, Twist2D.zero] using hzero
  · simp only [PursuitParams.track, hgoal]
    split_ifs
    · exact hzero
    · exact hclamp _
    · exact hclamp _

/-! ## Straight ahead

The one case in which all trigonometry can be done by hand; the runs of later modules are built
from it. -/

/-- A distance, from its square. -/
theorem dist2d_eq {a b : Waypoint ℝ} {d : ℝ} (hd : 0 ≤ d)
    (h : (a.x - b.x) * (a.x - b.x) + (a.y - b.y) * (a.y - b.y) = d * d) : dist2d a b = d := by
  rw [dist2d, CMath.sqrt_real, h, Real.sqrt_mul_self hd]

theorem wrap_zero : wrap (0 : ℝ) = 0 := wrap_of_mem ⟨by linarith [Real.pi_pos], Real.pi_pos.le⟩

/-- A point straight ahead of a robot that looks along the first axis. -/
theorem bearing_ahead {p : Waypoint ℝ} {current : Pose2D ℝ} (htheta : current.theta = 0)
    (hy : p.y = current.y) (hx : current.x < p.x) : bearing p current = 0 := by
  have harg : Complex.arg ⟨p.x - current.x, 0⟩ = 0 :=
    Complex.arg_ofReal_of_nonneg (sub_pos.mpr hx).le
  rw [bearing, htheta, hy, sub_self, CMath.atan2_real, harg, sub_zero, wrap_zero]

/-- Far from the goal, with the lookahead waypoint straight ahead, the robot drives
at full speed and does not turn. -/
theorem track_ahead {progress : Nat} {path : List (Waypoint ℝ)} {goal : Waypoint ℝ}
    {current : Pose2D ℝ} (hgoal : path.getLast? = some goal)
    (hfar : 1.5 ≤ dist2d goal current.position)
    (hahead : bearing (({} : PursuitParams ℝ).findLookahead progress path goal current).2
      current = 0) :
    ({} : PursuitParams ℝ).track progress path current =
      (⟨0.5, 0⟩, (nearest progress path current).1) := by
  have hnear : ¬ dist2d goal current.position < ({} : PursuitParams ℝ).goalTolerance :=
    not_lt.mpr (le_trans (by norm_num) hfar)
  have hspeed : ({} : PursuitParams ℝ).targetSpeed (dist2d goal current.position) 0 = 0.5 := by
    have hslow : ¬ dist2d goal current.position < ({} : PursuitParams ℝ).slowRadius :=
      not_lt.mpr (le_trans (by norm_num) hfar)
    simp only [PursuitParams.targetSpeed, if_neg hslow]
    norm_num [clamp]
  simp only [PursuitParams.track, hgoal, if_neg hnear, if_neg (not_lt.mpr hfar), hahead, hspeed]
  norm_num [clamp]

end AmrFramework.Execution
