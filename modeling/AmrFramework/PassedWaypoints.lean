import AmrFramework.MotorCtrlNode

/-!
# Waypoints already passed

The progress of the tracker never falls, but the first waypoint of the path that
it is given moves with the robot. As long as the progress is zero, that waypoint
can be the nearest, and the walk to the lookahead distance starts from it.

`lookahead_not_behind_iff` says when the lookahead waypoint is nevertheless not
behind the waypoint that the robot is closest to.

The walk adds up the lengths of the segments from where it starts. So if the start of the path is
taken for the nearest waypoint, the lookahead waypoint is the first one for which this sum is at
least the lookahead distance, however close the robot is to the later ones.
-/

namespace AmrFramework.Execution

open Runs

universe u

variable {K : Type u} [Field K] [CMath K]

/-- The length of a polyline. -/
def pathLength : List (Waypoint K) → K
  | a :: b :: path => dist2d b a + pathLength (b :: path)
  | _ => 0

variable [LinearOrder K]

/-- The index of the lookahead waypoint of a tick. -/
def lookaheadIndex (node : MotorNode K) (exec : ActiveGoal K) : Nat :=
  match exec.path.getLast? with
  | some back =>
    (({} : PursuitParams K).findLookahead node.progress exec.path back node.currentPose).1
  | none => 0

/-! ## The walk

The two functions that find a lookahead waypoint are the search for the nearest one and the walk
from there; each gets a lemma about the index that it returns. -/

/-- The walk returns a waypoint from its start on. -/
theorem le_of_walk {lookahead : K} {path : List (Waypoint K)} {prev w : Waypoint K} {i r : Nat}
    {accumulated : K} (h : walk lookahead prev path i accumulated = some (r, w)) :
    i ≤ r ∧ r < i + path.length := by
  induction path generalizing prev i accumulated with
  | nil => cases h
  | cons v path ih =>
    rw [walk] at h
    split at h
    · obtain ⟨rfl, -⟩ := Prod.mk.inj (Option.some.inj h)
      exact ⟨le_rfl, by simp⟩
    · obtain ⟨hle, hlt⟩ := ih h
      rw [List.length_cons]
      omega

/-- The lookahead waypoint is not behind the nearest: the walk starts there and only goes on, and
what it falls back to is the end of the path. -/
theorem nearest_le_findLookahead {p : PursuitParams K} {progress : Nat} {path : List (Waypoint K)}
    {back : Waypoint K} {current : Pose2D K} {k : Nat} (hk : k < path.length)
    (hle : k ≤ (nearest progress path current).1) :
    k ≤ (p.findLookahead progress path back current).1 := by
  simp only [PursuitParams.findLookahead]
  split
  · exact Nat.le_sub_one_of_lt hk
  · next prev rest hdrop =>
    rcases hwalk : walk p.lookahead prev rest _ _ with _ | ⟨r, w⟩
    · exact Nat.le_sub_one_of_lt hk
    · have hr := (le_of_walk hwalk).1
      exact hle.trans (Nat.le_of_succ_le hr)

theorem dist2d_nonneg (a b : Waypoint ℝ) : 0 ≤ dist2d a b := Real.sqrt_nonneg _

theorem pathLength_nonneg (path : List (Waypoint ℝ)) : 0 ≤ pathLength path := by
  induction path with
  | nil => exact le_rfl
  | cons a path ih =>
    cases path with
    | nil => exact le_rfl
    | cons b path => exact add_nonneg (dist2d_nonneg b a) ih

/-- The walk gets past `m` waypoints exactly when they lie within the lookahead distance. By
induction on `m`, with what was accumulated on the way. -/
theorem walk_past_iff {lookahead : ℝ} {path : List (Waypoint ℝ)} {prev : Waypoint ℝ} {i m : Nat}
    {accumulated : ℝ} (hm : m ≤ path.length) :
    (∀ r w, walk lookahead prev path i accumulated = some (r, w) → i + m ≤ r) ↔
      m = 0 ∨ accumulated + pathLength (prev :: path.take m) < lookahead := by
  induction path generalizing prev i m accumulated with
  | nil =>
    obtain rfl : m = 0 := Nat.le_zero.mp hm
    exact iff_of_true (fun r w h => by cases h) (.inl rfl)
  | cons v path ih =>
    obtain _ | m := m
    · exact iff_of_true (fun r w h => (le_of_walk h).1) (.inl rfl)
    · have hm' : m ≤ path.length := Nat.le_of_succ_le_succ hm
      have hlength : accumulated + pathLength (prev :: (v :: path).take (m + 1)) =
          accumulated + dist2d v prev + pathLength (v :: path.take m) := by
        rw [List.take_succ_cons, pathLength, add_assoc]
      have hrest := pathLength_nonneg (v :: path.take m)
      rw [or_iff_right (Nat.succ_ne_zero m), hlength, walk]
      split_ifs with hreached
      · refine iff_of_false (fun hall => ?_) (not_lt.mpr (by linarith))
        have hle := hall i v rfl
        omega
      · have hrec : (∀ r w, walk lookahead v path (i + 1) (accumulated + dist2d v prev) =
            some (r, w) → i + 1 + m ≤ r) ↔
            m = 0 ∨ accumulated + dist2d v prev + pathLength (v :: path.take m) < lookahead :=
          ih hm'
        rw [Nat.add_right_comm] at hrec
        refine hrec.trans ⟨?_, .inr⟩
        rintro (rfl | hlt)
        · simpa [pathLength] using not_le.mp hreached
        · exact hlt

/-! ## The lookahead waypoint of a tick

The index that pursuit uses is a function of the progress, the path and the pose. The avoidance
asks for the same waypoint once more, after pursuit has moved the progress on, and gets the same. -/

/-- The avoidance is given the bearing of the same waypoint. -/
theorem findLookahead_tracking [IsStrictOrderedRing K] [FloorRing K] {i : ControlInput K}
    {node : MotorNode K} {exec : ActiveGoal K} (hmoves : ¬ Arrived node exec) (back : Waypoint K) :
    ({} : PursuitParams K).findLookahead (tracking i node exec).progress exec.path back
        node.currentPose =
      ({} : PursuitParams K).findLookahead node.progress exec.path back node.currentPose := by
  have hprogress : (tracking i node exec).progress =
      (nearest node.progress exec.path node.currentPose).1 := by
    rw [tracking, (MotorNode.receive_keeps _ _).2.1]
    exact (tracked_of_not_arrived hmoves).2
  simp only [PursuitParams.findLookahead, hprogress, nearest_nearest]

/-- The robot is strictly closer to `w`, at index `k` of the received path, than to every earlier
waypoint: it has passed those. -/
structure CloserThanEarlier (node : MotorNode K) (exec : ActiveGoal K) (k : Nat)
    (w : Waypoint K) : Prop where
  at_index : exec.received[k]? = some w
  closer : ∀ j v, j < k → exec.received[j]? = some v →
    dist2d w node.currentPose.position < dist2d v node.currentPose.position

/-- The lookahead waypoint of a tick is not behind the nearest. -/
theorem nearest_le_lookaheadIndex {node : MotorNode K} {exec : ActiveGoal K} {k : Nat}
    (hk : k < exec.path.length)
    (hle : k ≤ (nearest node.progress exec.path node.currentPose).1) :
    k ≤ lookaheadIndex node exec := by
  have hne : exec.path ≠ [] := List.ne_nil_of_length_pos (Nat.zero_lt_of_lt hk)
  simp only [lookaheadIndex, List.getLast?_eq_some_getLast hne]
  exact nearest_le_findLookahead hk hle

/-- When the start of the path is the nearest waypoint, the lookahead waypoint is found by the
walk from it, whose first segment leads from the robot's last pose to the second waypoint. -/
theorem le_lookaheadIndex_iff {node : MotorNode ℝ} {exec : ActiveGoal ℝ} {start : Waypoint ℝ}
    {rest : List (Waypoint ℝ)} {d : ℝ} {m : Nat} (hpath : exec.path = start :: rest)
    (hm : m < rest.length)
    (hnearest : nearest node.progress exec.path node.currentPose = (0, d)) :
    m + 1 ≤ lookaheadIndex node exec ↔
      m = 0 ∨ d + pathLength (start :: rest.take m) < ({} : PursuitParams ℝ).lookahead := by
  have hne : exec.path ≠ [] := hpath ▸ List.cons_ne_nil start rest
  have hlast : exec.path.length - 1 = rest.length := by
    rw [hpath, List.length_cons, Nat.add_sub_cancel]
  have hdrop : exec.path.drop 0 = start :: rest := hpath
  rw [← walk_past_iff hm.le (i := 1)]
  simp only [lookaheadIndex, List.getLast?_eq_some_getLast hne, PursuitParams.findLookahead,
    hnearest, hdrop, hlast]
  obtain _ | ⟨r, w⟩ := walk _ start rest (0 + 1) d
  · exact iff_of_true hm (fun r w h => by cases h)
  · refine ⟨?_, fun hall => ?_⟩
    · rintro hle r' w' h
      cases h
      rw [Nat.add_comm]
      exact hle
    · have hle := hall r w rfl
      rw [Nat.add_comm]
      exact hle

variable {vfhEnabled : Bool} {guardStopDist : ℝ} {guardMinValidEchoes : Int}
variable {h : List (MotorEvent ℝ)} {s : MotorState ℝ} {exec : ActiveGoal ℝ}

/-- **Waypoints already passed**, in every tick of every run: when the robot is
strictly closer to a waypoint than to every earlier one, the lookahead waypoint is
not behind that waypoint exactly when the search does not find the start of the
path, which moved with the robot, or when the walk from there gets far enough. -/
theorem lookahead_not_behind_iff (hr : MotorRun vfhEnabled guardStopDist guardMinValidEchoes h s)
    (hexec : s.exec = some exec) {k : Nat} {w start : Waypoint ℝ} (hk : 1 ≤ k)
    (hclosest : CloserThanEarlier s.node exec k w)
    (hreach : dist2d w s.node.currentPose.position < floatMax)
    (hstart : exec.path.head? = some start) :
    k ≤ lookaheadIndex s.node exec ↔
      1 ≤ s.node.progress ∨
        (∃ j v, k ≤ j ∧ exec.received[j]? = some v ∧
          dist2d v s.node.currentPose.position < dist2d start s.node.currentPose.position) ∨
        k = 1 ∨
        dist2d start s.node.currentPose.position + pathLength (exec.path.take k) <
          ({} : PursuitParams ℝ).lookahead := by
  have hlen : k < exec.received.length := (List.getElem?_eq_some_iff.mp hclosest.at_index).1
  have hkept := run_kept hr exec hexec
  have hsame : ∀ {j : Nat}, 1 ≤ j → exec.path[j]? = exec.received[j]? :=
    fun hj => hkept.getElem?_path (hk.trans_lt hlen) hj
  have hw : exec.path[k]? = some w := (hsame hk).trans hclosest.at_index
  have hpathLen : k < exec.path.length := (List.getElem?_eq_some_iff.mp hw).1
  obtain hzero | hprogress := Nat.eq_zero_or_pos s.node.progress
  · obtain ⟨n, u, hn⟩ := exists_findsNearest (Nat.zero_le k) hw hreach
    have hfound := hn.found
    rw [← hzero] at hfound
    obtain ⟨first, hpath⟩ := hkept.path_eq (hk.trans_lt hlen)
    have hfirst : exec.path[0]? = some start := by rw [← List.head?_eq_getElem?, hstart]
    obtain rfl | hpos := Nat.eq_zero_or_pos n
    · -- the start of the path is the nearest waypoint
      obtain rfl : u = start := Option.some.inj (hn.at_index.symm.trans hfirst)
      obtain rfl : u = first := by
        rw [hpath] at hfirst
        exact (Option.some.inj hfirst).symm
      obtain ⟨m, rfl⟩ := Nat.exists_eq_add_of_le' hk
      have hm : m < exec.received.tail.length := by
        rw [List.length_tail]
        omega
      have hnotMoved : ¬ 1 ≤ s.node.progress := by omega
      have hnoneBeyond : ¬ ∃ j v, m + 1 ≤ j ∧ exec.received[j]? = some v ∧
          dist2d v s.node.currentPose.position < dist2d u s.node.currentPose.position := by
        rintro ⟨j, v, hj, hv, hlt⟩
        have hj' : exec.path[j]? = some v := (hsame (by omega)).trans hv
        exact absurd hlt (not_lt.mpr (hn.le j v (Nat.zero_le j) hj'))
      rw [le_lookaheadIndex_iff hpath hm hfound, or_iff_right hnotMoved, or_iff_right hnoneBeyond,
        Nat.add_eq_right, hpath, List.take_succ_cons]
    · -- a received waypoint is, and it is not an earlier one
      have hu : exec.received[n]? = some u := (hsame hpos).symm.trans hn.at_index
      have hkn : k ≤ n := by
        by_contra hlt
        exact absurd (hn.le k w (Nat.zero_le k) hw)
          (not_le.mpr (hclosest.closer n u (not_le.mp hlt) hu))
      refine iff_of_true (nearest_le_lookaheadIndex hpathLen ?_) (.inr (.inl ⟨n, u, hkn, hu, ?_⟩))
      · rw [hfound]
        exact hkn
      · exact hn.first 0 start le_rfl hpos hfirst
  · -- the search starts behind the start of the path
    refine iff_of_true (nearest_le_lookaheadIndex hpathLen ?_) (.inl hprogress)
    refine le_nearest hw hreach fun j v hj hlt hv => ?_
    exact hclosest.closer j v hlt ((hsame (Nat.le_trans hprogress hj)).symm.trans hv)

/-! ## A path with a corner

From the origin up to `(0, 3)` and back down to `(4, 0)`. A robot that drives along the first
axis comes close to the end of the path without following it, and carries the start of the path
along. -/

/-- A robot with odometry, without avoidance, that no scan holds back: the shortest way to a tick
in which only the pursuit decides. -/
structure Unscanned (node : MotorNode K) : Prop where
  no_avoidance : node.vfhEnabled = false
  odometry : node.odomValid = true
  no_scan : node.guard.recvTime = none
  no_ranges : node.guard.scan.ranges = []

/-- Such a robot drives on, and its path now starts where it was. -/
theorem Unscanned.tick [IsStrictOrderedRing K] [FloorRing K] {node : MotorNode K}
    {exec : ActiveGoal K} (hu : Unscanned node) (hmoves : ¬ Arrived node exec) (now : Int) :
    ∃ node', Unscanned node' ∧ node'.progress = (tracked node exec).2 ∧
      MotorStep ⟨node, some exec⟩ (.tick (quiet now))
        ⟨node', some { exec with path := exec.path.set 0 node.currentPose.position }⟩ := by
  have hclamp : node.guard.clamp (tracked node exec).1.linear now =
      ((tracked node exec).1.linear,
        { node.guard with lastStop := false, lastOkTime := some now }) :=
    CollisionGuard.clamp_of_no_scan hu.no_scan hu.no_ranges
  have htick := controlTick_quiet hu.no_avoidance hu.odometry rfl hmoves hclamp
    (by simp [CollisionGuard.blockedFor])
  refine ⟨(controlTick (quiet now) node exec).node, ⟨?_, ?_, ?_, ?_⟩, ?_, ?_⟩
  · rw [htick]
    exact hu.no_avoidance
  · rw [htick]
    exact hu.odometry
  · rw [htick]
    exact hu.no_scan
  · rw [htick]
    exact hu.no_ranges
  · rw [htick]
    rfl
  · simp only [MotorStep, MotorState.step, Option.map_some, htick]

/-- A path along the second axis that comes back to the first, with its first
waypoint moved. -/
def cornerPath (start : Waypoint ℝ) : ActiveGoal ℝ where
  target := ⟨4, 0⟩
  received := [⟨0, 0⟩, ⟨0, 3⟩, ⟨4, 0⟩]
  path := [start, ⟨0, 3⟩, ⟨4, 0⟩]

/-- A robot on the first axis that begins to follow this path. -/
theorem run_corner (x : ℝ) :
    ∃ h node, MotorRun false 0.30 0 h ⟨node, some (cornerPath ⟨0, 0⟩)⟩ ∧ Unscanned node ∧
      node.progress = 0 ∧ node.currentPose.position = ⟨x, 0⟩ := by
  obtain ⟨h, hr⟩ := run_goal (K := ℝ) false 0.30 0
    [.odom x 0 0 1, .path (cornerPath ⟨0, 0⟩).received] ⟨4, 0⟩ 0
  exact ⟨h, _, hr, ⟨rfl, rfl, rfl, rfl⟩, rfl, rfl⟩

theorem dist2d_corner {p : Waypoint ℝ} (hp : p = ⟨2.25, 0⟩) :
    dist2d ⟨0, 0⟩ p = 2.25 ∧ dist2d ⟨0, 3⟩ p = 3.75 ∧ dist2d ⟨4, 0⟩ p = 1.75 := by
  subst hp
  exact ⟨dist2d_eq (by norm_num) (by norm_num), dist2d_eq (by norm_num) (by norm_num),
    dist2d_eq (by norm_num) (by norm_num)⟩

/-- At `(2.25, 0)` the last waypoint is the closest one. -/
theorem closer_corner {node : MotorNode ℝ} {start : Waypoint ℝ}
    (hpose : node.currentPose.position = ⟨2.25, 0⟩) :
    CloserThanEarlier node (cornerPath start) 2 ⟨4, 0⟩ := by
  obtain ⟨hfirst, hcorner, hlast⟩ := dist2d_corner hpose
  refine ⟨rfl, ?_⟩
  rintro (_ | _ | j) v hj hv
  · obtain rfl := Option.some.inj hv
    rw [hfirst, hlast]
    norm_num
  · obtain rfl := Option.some.inj hv
    rw [hcorner, hlast]
    norm_num
  · omega

/-- The start of the path is the nearest waypoint, when no other one is closer. -/
theorem nearest_corner {start : Waypoint ℝ} {current : Pose2D ℝ} {d : ℝ}
    (hstart : dist2d start current.position = d) (hreach : d < floatMax)
    (hcorner : d ≤ dist2d ⟨0, 3⟩ current.position) (hlast : d ≤ dist2d ⟨4, 0⟩ current.position) :
    nearest 0 (cornerPath start).path current = (0, d) := by
  simp only [nearest, List.drop_zero, cornerPath, searchNearest, hstart, if_pos hreach,
    if_neg (not_lt.mpr hcorner), if_neg (not_lt.mpr hlast)]

/-- A robot that begins there drives to it. -/
theorem lookahead_not_behind_first :
    ∃ h node, MotorRun false 0.30 0 h ⟨node, some (cornerPath ⟨0, 0⟩)⟩ ∧
      2 ≤ lookaheadIndex node (cornerPath ⟨0, 0⟩) := by
  obtain ⟨h, node, hr, -, -, hpose⟩ := run_corner 2.25
  obtain ⟨hfirst, -, hlast⟩ := dist2d_corner hpose
  have hreach : dist2d (⟨4, 0⟩ : Waypoint ℝ) node.currentPose.position < floatMax := by
    rw [hlast]
    norm_num [floatMax]
  refine ⟨h, node, hr, (lookahead_not_behind_iff hr rfl one_le_two (closer_corner hpose) hreach
    rfl).mpr (.inr (.inl ⟨2, ⟨4, 0⟩, le_rfl, rfl, ?_⟩))⟩
  rw [hfirst, hlast]
  norm_num

/-- A robot that came there along the first axis is sent back. -/
theorem lookahead_behind :
    ∃ h, ∃ s : MotorState ℝ, ∃ exec k w, MotorRun false 0.30 0 h s ∧ s.exec = some exec ∧ 1 ≤ k ∧
      CloserThanEarlier s.node exec k w ∧ ¬ Arrived s.node exec ∧
      lookaheadIndex s.node exec < k := by
  have hgoal : ∀ start, (cornerPath start).path.getLast? = some ⟨4, 0⟩ := fun _ => rfl
  obtain ⟨h, node, hr, hu, hprogress, hpose⟩ := run_corner 1.25
  have hfirst : dist2d ⟨0, 0⟩ node.currentPose.position = 1.25 := by
    rw [hpose]
    exact dist2d_eq (by norm_num) (by norm_num)
  have hcorner : dist2d ⟨0, 3⟩ node.currentPose.position = 3.25 := by
    rw [hpose]
    exact dist2d_eq (by norm_num) (by norm_num)
  have hlast : dist2d ⟨4, 0⟩ node.currentPose.position = 2.75 := by
    rw [hpose]
    exact dist2d_eq (by norm_num) (by norm_num)
  have hmoves : ¬ Arrived node (cornerPath ⟨0, 0⟩) := by
    rw [arrived_iff (hgoal _), hlast]
    norm_num
  have hnearest : nearest 0 (cornerPath ⟨0, 0⟩).path node.currentPose = (0, 1.25) :=
    nearest_corner hfirst (by norm_num [floatMax]) (by rw [hcorner]; norm_num)
      (by rw [hlast]; norm_num)
  obtain ⟨node', hu', hprogress', htick⟩ := hu.tick hmoves 0
  rw [(tracked_of_not_arrived hmoves).2, hprogress, hnearest] at hprogress'
  have hset : { cornerPath ⟨0, 0⟩ with
      path := (cornerPath ⟨0, 0⟩).path.set 0 node.currentPose.position } =
      cornerPath ⟨1.25, 0⟩ := by
    rw [hpose]
    rfl
  rw [hset] at htick
  have hodom : MotorStep ⟨node', some (cornerPath ⟨1.25, 0⟩)⟩ (.message (.odom 2.25 0 0 1))
      ⟨node'.onMessage (.odom 2.25 0 0 1), some (cornerPath ⟨1.25, 0⟩)⟩ := rfl
  have hpose' : (node'.onMessage (.odom 2.25 0 0 1)).currentPose.position = ⟨2.25, 0⟩ := rfl
  obtain ⟨-, hcorner', hlast'⟩ := dist2d_corner hpose'
  have hfirst' :
      dist2d ⟨1.25, 0⟩ (node'.onMessage (.odom 2.25 0 0 1)).currentPose.position = 1 := by
    rw [hpose']
    exact dist2d_eq zero_le_one (by norm_num)
  have hlength : pathLength [(⟨1.25, 0⟩ : Waypoint ℝ), ⟨0, 3⟩] = 3.25 := by
    simp only [pathLength, add_zero]
    exact dist2d_eq (by norm_num) (by norm_num)
  have hshort : ¬ 1 + pathLength [(⟨1.25, 0⟩ : Waypoint ℝ), ⟨0, 3⟩] <
      ({} : PursuitParams ℝ).lookahead := by
    rw [hlength]
    norm_num
  have hnearest' : nearest node'.progress (cornerPath ⟨1.25, 0⟩).path
      (node'.onMessage (.odom 2.25 0 0 1)).currentPose = (0, 1) := by
    have hprogress'' : node'.progress = 0 := hprogress'
    rw [hprogress'']
    exact nearest_corner hfirst' (by norm_num [floatMax]) (by rw [hcorner']; norm_num)
      (by rw [hlast']; norm_num)
  refine ⟨_, _, _, 2, ⟨4, 0⟩, (hr.snoc htick).snoc hodom, rfl, one_le_two, closer_corner hpose',
    ?_, ?_⟩
  · rw [arrived_iff (hgoal _), hlast']
    norm_num
  · rw [← not_le, le_lookaheadIndex_iff (m := 1) rfl (by decide) hnearest',
      or_iff_right one_ne_zero]
    exact hshort

end AmrFramework.Execution
