import AmrFramework.PassedWaypoints

/-!
# The calls of the path tracker

The progress of `PurePursuit` outlives the path that it was found on: the next call may
bring a shorter one. Here both loops of `find_lookahead` read the path by index, and a
read outside of the path is `none`.

`calls_spec` is about every sequence of calls, with any paths: no such read happens, and
what the search returns lies ahead.

The loops of the model never go out of bounds, since they take a list apart; whether the loops of
the source do is therefore asked of a second reading of them, in which every access is one that
can fail. It is proved to be equal to the first (`readNearest_eq`, `readWalk_eq`).
-/

namespace AmrFramework.Execution

open Runs

universe u

variable {K : Type u} [Field K] [CMath K] [LinearOrder K]

/-! ## The loops, with their reads

The walk reads two entries in each round, the one it is at and the one before it, and so has to
start behind the first. -/

/-- The loop that finds the nearest waypoint. -/
def readNearest (path : List (Waypoint K)) (current : Pose2D K) (i : Nat) (best : Nat × K) :
    Option (Nat × K) :=
  if i < path.length then
    match path[i]? with
    | none => none
    | some w =>
      let d := dist2d w current.position
      readNearest path current (i + 1) (if d < best.2 then (i, d) else best)
  else some best
termination_by path.length - i

/-- The loop that walks down the path. It begins behind the nearest waypoint, so that
`i` is not zero. -/
def readWalk (lookahead : K) (path : List (Waypoint K)) (i : Nat) (accumulated : K) :
    Option (Option (Nat × Waypoint K)) :=
  if i < path.length then
    match path[i]?, path[i - 1]? with
    | some w, some prev =>
      let accumulated := accumulated + dist2d w prev
      if lookahead ≤ accumulated then some (some (i, w))
      else readWalk lookahead path (i + 1) accumulated
    | _, _ => none
  else some none
termination_by path.length - i

/-- `find_lookahead` on a path: the lookahead waypoint with its index, and the new
progress. -/
def PursuitParams.readLookahead (p : PursuitParams K) (progress : Nat) (path : List (Waypoint K))
    (current : Pose2D K) : Option ((Nat × Waypoint K) × Nat) := do
  let best ← readNearest path current progress (progress, floatMax)
  match ← readWalk p.lookahead path (best.1 + 1) best.2 with
  | some found => some (found, best.1)
  | none => path.getLast?.map fun back => ((path.length - 1, back), best.1)

omit [Field K] [CMath K] [LinearOrder K] in
/-- What a loop has in front of it is what the index names. -/
theorem drop_eq_cons {path rest : List (Waypoint K)} {i : Nat} {w : Waypoint K}
    (h : path.drop i = w :: rest) :
    path[i]? = some w ∧ i < path.length ∧ path.drop (i + 1) = rest := by
  have hw : path[i]? = some w := by
    rw [← List.head?_drop, h, List.head?_cons]
  refine ⟨hw, (List.getElem?_eq_some_iff.mp hw).1, ?_⟩
  rw [← List.tail_drop, h, List.tail_cons]

/-- The first loop reads what the search of the model takes off its list, -/
theorem readNearest_eq (path : List (Waypoint K)) (current : Pose2D K) (i : Nat) (best : Nat × K) :
    readNearest path current i best = some (searchNearest current (path.drop i) i best) := by
  induction hrest : path.drop i generalizing i best with
  | nil =>
    have hlen : ¬ i < path.length := not_lt.mpr (List.drop_eq_nil_iff.mp hrest)
    rw [readNearest, if_neg hlen, searchNearest]
  | cons w rest ih =>
    obtain ⟨hw, hlen, htail⟩ := drop_eq_cons hrest
    rw [readNearest, if_pos hlen, hw, searchNearest]
    exact ih _ _ htail

/-- and the second one what the walk does. -/
theorem readWalk_eq {lookahead : K} {path : List (Waypoint K)} {i : Nat} {prev : Waypoint K}
    (hprev : path[i]? = some prev) (accumulated : K) :
    readWalk lookahead path (i + 1) accumulated =
      some (walk lookahead prev (path.drop (i + 1)) (i + 1) accumulated) := by
  induction hrest : path.drop (i + 1) generalizing i prev accumulated with
  | nil =>
    have hlen : ¬ i + 1 < path.length := not_lt.mpr (List.drop_eq_nil_iff.mp hrest)
    rw [readWalk, if_neg hlen, walk]
  | cons w rest ih =>
    obtain ⟨hw, hlen, htail⟩ := drop_eq_cons hrest
    rw [readWalk, if_pos hlen, hw, Nat.add_sub_cancel, hprev, walk]
    simp only
    split_ifs with hreached
    · rfl
    · -- the waypoint is the previous one of the next round
      exact ih hw _ htail

/-- No read is outside of the path, also when the progress is. -/
theorem PursuitParams.readLookahead_eq (p : PursuitParams K) (progress : Nat)
    {path : List (Waypoint K)} {back : Waypoint K} (hback : path.getLast? = some back)
    (current : Pose2D K) :
    p.readLookahead progress path current =
      some (p.findLookahead progress path back current, (nearest progress path current).1) := by
  have hnearest : readNearest path current progress (progress, floatMax) =
      some (nearest progress path current) := readNearest_eq ..
  rcases hfound : nearest progress path current with ⟨n, d⟩
  rw [readLookahead, hnearest, hfound]
  simp only [findLookahead, hfound, Option.bind_eq_bind, Option.bind_some]
  rcases hdrop : path.drop n with _ | ⟨prev, rest⟩
  · -- the progress is behind the end of the path, and neither loop runs
    have hlen : ¬ n + 1 < path.length :=
      not_lt.mpr ((List.drop_eq_nil_iff.mp hdrop).trans (Nat.le_succ n))
    rw [readWalk, if_neg hlen]
    simp [hback]
  · obtain ⟨hprev, -, htail⟩ := drop_eq_cons hdrop
    rw [readWalk_eq hprev, htail]
    simp only [Option.bind_some]
    rcases walk p.lookahead prev rest (n + 1) d with _ | found
    · simp [hback]
    · simp

/-! ## The lookahead waypoint

Where the walk ends without having gone far enough, the answer is the last waypoint; elsewhere it
is one behind the nearest. -/

omit [LinearOrder K] [CMath K] [Field K] in
/-- The last waypoint, by its index. -/
theorem getElem?_last {path : List (Waypoint K)} {back : Waypoint K}
    (hback : path.getLast? = some back) : path[path.length - 1]? = some back := by
  rw [← List.getLast?_eq_getElem?, hback]

/-- The walk returns a waypoint with its index. -/
theorem getElem?_of_walk {lookahead : K} {path : List (Waypoint K)} {prev w : Waypoint K}
    {i r : Nat} {accumulated : K} (h : walk lookahead prev path i accumulated = some (r, w)) :
    path[r - i]? = some w := by
  induction path generalizing prev i accumulated with
  | nil => cases h
  | cons v path ih =>
    rw [walk] at h
    split at h
    · obtain ⟨rfl, rfl⟩ := Prod.mk.inj (Option.some.inj h)
      simp
    · have hle := (le_of_walk h).1
      have hr : r - i = r - (i + 1) + 1 := by omega
      rw [hr, List.getElem?_cons_succ]
      exact ih h

/-- The lookahead waypoint is the last one, or one ahead of the nearest. -/
theorem PursuitParams.findLookahead_ahead (p : PursuitParams K) (progress : Nat)
    {path : List (Waypoint K)} {back : Waypoint K} (hback : path.getLast? = some back)
    {current : Pose2D K} {i : Nat} {w : Waypoint K}
    (h : p.findLookahead progress path back current = (i, w)) :
    path[i]? = some w ∧ (i = path.length - 1 ∨ (nearest progress path current).1 < i) := by
  simp only [findLookahead] at h
  split at h
  · obtain ⟨rfl, rfl⟩ := Prod.mk.inj h
    exact ⟨getElem?_last hback, .inl rfl⟩
  · next prev rest hdrop =>
    rcases hwalk : walk p.lookahead prev rest _ _ with _ | ⟨r, u⟩
    · rw [hwalk] at h
      obtain ⟨rfl, rfl⟩ := Prod.mk.inj h
      exact ⟨getElem?_last hback, .inl rfl⟩
    · rw [hwalk] at h
      obtain ⟨rfl, rfl⟩ := Prod.mk.inj h
      have hle := (le_of_walk hwalk).1
      obtain ⟨-, -, htail⟩ := drop_eq_cons hdrop
      refine ⟨?_, .inr hle⟩
      rw [← Nat.add_sub_of_le hle, ← List.getElem?_drop, htail]
      exact getElem?_of_walk hwalk

/-! ## Calls

`Safe` is the contract of one call, on any path and from any progress, also one that the path
does not reach: the result is in the path, it is not behind the progress when that is inside, and
the progress does not fall. -/

/-- The calls that change the progress. -/
inductive PursuitCall (K : Type u) : Type u
  | reset
  | track (path : List (Waypoint K)) (current : Pose2D K)
  | lookaheadBearing (path : List (Waypoint K)) (current : Pose2D K)

/-- One call: the lookahead waypoint with its index, when it looks for one, and the new
progress. -/
def PursuitParams.call (p : PursuitParams K) (progress : Nat) :
    PursuitCall K → Option (Option (Nat × Waypoint K) × Nat)
  | .reset => some (none, 0)
  | .track path current =>
    match path.getLast? with
    | none => some (none, progress)
    | some goal =>
      if dist2d goal current.position < p.goalTolerance then some (none, progress)
      else
        (p.readLookahead progress path current).map fun (found, progress) => (some found, progress)
  | .lookaheadBearing path current =>
    match path.getLast? with
    | none => some (none, progress)
    | some _ =>
      (p.readLookahead progress path current).map fun (found, progress) => (some found, progress)

/-- The progress after a call. -/
def PursuitParams.next (p : PursuitParams K) (progress : Nat) (c : PursuitCall K) : Option Nat :=
  (p.call progress c).map Prod.snd

/-- The progress is the one that `track` and `lookahead_bearing` return. -/
theorem PursuitParams.next_eq (p : PursuitParams K) (progress : Nat) (path : List (Waypoint K))
    (current : Pose2D K) :
    p.next progress (.track path current) = some (p.track progress path current).2 ∧
      p.next progress (.lookaheadBearing path current) =
        some (p.lookaheadBearing progress path current).2 := by
  rcases hback : path.getLast? with _ | back
  · simp [next, call, track, lookaheadBearing, hback]
  · by_cases hnear : dist2d back current.position < p.goalTolerance
    · simp only [next, call, track, lookaheadBearing, hback, p.readLookahead_eq progress hback,
        if_pos hnear, Option.map_some, and_self]
    · simp only [next, call, track, lookaheadBearing, hback, p.readLookahead_eq progress hback,
        if_neg hnear, Option.map_some, and_self]

/-- The call is one to `track` or `lookahead_bearing`. -/
def PursuitCall.On (c : PursuitCall K) (path : List (Waypoint K)) (current : Pose2D K) : Prop :=
  c = .track path current ∨ c = .lookaheadBearing path current

/-- The waypoint `v` is closer than all earlier ones. -/
def ClosestSoFar (path : List (Waypoint K)) (current : Pose2D K) (k : Nat) (v : Waypoint K) :
    Prop :=
  path[k]? = some v ∧ ∀ j u, j < k → path[j]? = some u →
    dist2d v current.position < dist2d u current.position

/-- What a call may return, and what it may do to the progress. A waypoint it finds is one of its
path, ahead of the progress, and not behind the point of the path that is closest so far. -/
structure PursuitCall.Safe (p : PursuitParams K) (progress : Nat) (c : PursuitCall K)
    (found : Option (Nat × Waypoint K)) (progress' : Nat) : Prop where
  forward : c ≠ .reset → progress ≤ progress'
  /-- only at the end of the path there is nothing to look for -/
  searched : found = none → ∀ path current, c.On path current → ∀ goal, path.getLast? = some goal →
    c = .track path current ∧ dist2d goal current.position < p.goalTolerance
  ahead : ∀ i w, found = some (i, w) → ∀ path current, c.On path current →
    path[i]? = some w ∧ (i = path.length - 1 ∨ progress' < i)
  not_behind : ∀ i w, found = some (i, w) → ∀ path current, c.On path current →
    ∀ k v, ClosestSoFar path current k v → dist2d v current.position < floatMax →
      min (k + 1) (path.length - 1) ≤ i

/-- The lookahead waypoint is not behind the one that the robot is closest to. -/
theorem PursuitParams.min_le_findLookahead (p : PursuitParams K) (progress : Nat)
    {path : List (Waypoint K)} {back : Waypoint K} (hback : path.getLast? = some back)
    {current : Pose2D K} {k : Nat} {v : Waypoint K} (hclosest : ClosestSoFar path current k v)
    (hreach : dist2d v current.position < floatMax) :
    min (k + 1) (path.length - 1) ≤ (p.findLookahead progress path back current).1 := by
  obtain ⟨hv, hcloser⟩ := hclosest
  have hle : k ≤ (nearest progress path current).1 :=
    le_nearest hv hreach fun j u _ hj hu => hcloser j u hj hu
  have hfound : p.findLookahead progress path back current =
      ((p.findLookahead progress path back current).1,
        (p.findLookahead progress path back current).2) := rfl
  obtain ⟨-, hlast | hahead⟩ := p.findLookahead_ahead progress hback hfound
  · exact (min_le_right _ _).trans_eq hlast.symm
  · exact (min_le_left _ _).trans (hle.trans_lt hahead)

omit [Field K] [CMath K] [LinearOrder K] in
/-- A call is on one path, by one pose. -/
theorem PursuitCall.On.unique {c : PursuitCall K} {path path' : List (Waypoint K)}
    {current current' : Pose2D K} (h : c.On path current) (h' : c.On path' current') :
    path' = path ∧ current' = current := by
  rcases h with rfl | rfl <;> rcases h' with h' | h' <;> cases h' <;> exact ⟨rfl, rfl⟩

/-- A search is safe. -/
theorem PursuitCall.On.safe {p : PursuitParams K} {progress : Nat} {c : PursuitCall K}
    {path : List (Waypoint K)} {current : Pose2D K} (hon : c.On path current) {back : Waypoint K}
    (hback : path.getLast? = some back) :
    c.Safe p progress (some (p.findLookahead progress path back current))
      (nearest progress path current).1 where
  forward _ := progress_le_nearest progress path current
  searched hnone := by cases hnone
  ahead i w hfound path' current' hon' := by
    obtain ⟨rfl, rfl⟩ := hon.unique hon'
    exact p.findLookahead_ahead progress hback (Option.some.inj hfound)
  not_behind i w hfound path' current' hon' k v hclosest hreach := by
    obtain ⟨rfl, rfl⟩ := hon.unique hon'
    have hle := p.min_le_findLookahead progress hback hclosest hreach
    rwa [Option.some.inj hfound] at hle

/-- So is a call that finds nothing to look for. -/
theorem PursuitCall.On.safe_none {p : PursuitParams K} {progress : Nat} {c : PursuitCall K}
    {path : List (Waypoint K)} {current : Pose2D K} (hon : c.On path current)
    (hend : ∀ goal, path.getLast? = some goal →
      c = .track path current ∧ dist2d goal current.position < p.goalTolerance) :
    c.Safe p progress none progress where
  forward _ := le_rfl
  searched _ path' current' hon' goal hgoal := by
    obtain ⟨rfl, rfl⟩ := hon.unique hon'
    exact hend goal hgoal
  ahead i w hfound := by cases hfound
  not_behind i w hfound := by cases hfound

/-- Every call is made without a read outside of its path, and is safe. -/
theorem PursuitParams.call_safe (p : PursuitParams K) (progress : Nat) (c : PursuitCall K) :
    ∃ found progress', p.call progress c = some (found, progress') ∧
      c.Safe p progress found progress' := by
  cases c with
  | reset =>
    -- a reset is the one call that may set the progress back
    refine ⟨none, 0, rfl, fun hne => absurd rfl hne, ?_, fun i w h => (by cases h),
      fun i w h => (by cases h)⟩
    rintro - path current (h | h) <;> cases h
  | track path current =>
    have hon : (PursuitCall.track path current).On path current := .inl rfl
    rcases hgoal : path.getLast? with _ | goal
    · -- the path is empty
      refine ⟨none, progress, by simp only [call, hgoal], hon.safe_none fun goal hgoal' => ?_⟩
      rw [hgoal] at hgoal'
      cases hgoal'
    · by_cases hnear : dist2d goal current.position < p.goalTolerance
      · refine ⟨none, progress, by simp only [call, hgoal, if_pos hnear],
          hon.safe_none fun goal' hgoal' => ?_⟩
        rw [hgoal] at hgoal'
        obtain rfl := Option.some.inj hgoal'
        exact ⟨rfl, hnear⟩
      · refine ⟨_, _, ?_, hon.safe hgoal⟩
        simp only [call, hgoal, if_neg hnear, p.readLookahead_eq progress hgoal, Option.map_some]
  | lookaheadBearing path current =>
    have hon : (PursuitCall.lookaheadBearing path current).On path current := .inr rfl
    rcases hback : path.getLast? with _ | back
    · -- the path is empty
      refine ⟨none, progress, by simp only [call, hback], hon.safe_none fun goal hgoal' => ?_⟩
      rw [hback] at hgoal'
      cases hgoal'
    · refine ⟨_, _, ?_, hon.safe hback⟩
      simp only [call, hback, p.readLookahead_eq progress hback, Option.map_some]

/-! ## Sequences of calls

What holds of one call for every progress holds of a sequence of them, by induction; nothing is
asked of the paths, which may differ from call to call. -/

/-- A call ends with a progress. -/
theorem PursuitParams.next_some (p : PursuitParams K) (progress : Nat) (c : PursuitCall K) :
    ∃ progress', p.next progress c = some progress' ∧ (c ≠ .reset → progress ≤ progress') := by
  obtain ⟨found, progress', hcall, hsafe⟩ := p.call_safe progress c
  exact ⟨progress', by simp [next, hcall], hsafe.forward⟩

/-- The progress never falls between resets. -/
theorem PursuitParams.calls_forward (p : PursuitParams K) {calls : List (PursuitCall K)}
    (hcalls : ∀ c ∈ calls, c ≠ .reset) (progress : Nat) :
    ∃ progress', calls.foldlM p.next progress = some progress' ∧ progress ≤ progress' := by
  have hstep : ∀ c ∈ calls, ∀ progress, ∃ progress', p.next progress c = some progress' ∧
      Relation.ReflTransGen (· ≤ ·) progress progress' := by
    intro c hc progress
    obtain ⟨progress', hnext, hle⟩ := p.next_some progress c
    exact ⟨progress', hnext, .single (hle (hcalls c hc))⟩
  obtain ⟨progress', hrun, hsteps⟩ := foldlM_steps hstep progress
  refine ⟨progress', hrun, ?_⟩
  exact steps_invariant (I := fun n => progress ≤ n) (fun _ _ => le_trans) hsteps le_rfl

/-- Any calls can be made. -/
theorem PursuitParams.calls_total (p : PursuitParams K) (calls : List (PursuitCall K))
    (progress : Nat) : ∃ progress', calls.foldlM p.next progress = some progress' := by
  induction calls generalizing progress with
  | nil => exact ⟨progress, rfl⟩
  | cons c calls ih =>
    obtain ⟨progress', hnext, -⟩ := p.next_some progress c
    obtain ⟨progress'', hrun⟩ := ih progress'
    exact ⟨progress'', by simp [hnext, hrun]⟩

/-- **The progress**, in every sequence of calls on any paths: no call reads outside of its path,
the progress never falls between resets, and every search is safe. The paths of two calls need
not have anything in common. -/
theorem PursuitParams.calls_spec (p : PursuitParams K) (before since : List (PursuitCall K)) :
    ∃ start progress, before.foldlM p.next 0 = some start ∧
      since.foldlM p.next start = some progress ∧
      ((∀ c ∈ since, c ≠ .reset) → start ≤ progress) ∧
      ∀ c, ∃ found progress', p.call progress c = some (found, progress') ∧
        PursuitCall.Safe p progress c found progress' := by
  obtain ⟨start, hbefore⟩ := p.calls_total before 0
  obtain ⟨progress, hsince⟩ := p.calls_total since start
  refine ⟨start, progress, hbefore, hsince, fun hcalls => ?_, p.call_safe progress⟩
  obtain ⟨progress', hsince', hle⟩ := p.calls_forward hcalls start
  rw [hsince] at hsince'
  exact hle.trans_eq (Option.some.inj hsince').symm

end AmrFramework.Execution
