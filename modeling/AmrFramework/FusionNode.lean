import AmrFramework.SensorAges

/-!
# The fusion timer

The timer callback of the fusion node measures the time since the callback
before it, and ticks the perception service only when that time lies between
one millisecond and one second. It evaluates the level in any case.

The ages of the sensors therefore grow by the gaps that were accepted. What the
clock says is another thing: `fusion_missing_iff` relates the two for every
history of callbacks, newest first.

The node throws away a callback that comes too early or too late after the one before it. The
service is not ticked then and its ages stand still, while the clock does not. So an outage can
be longer than what the ages say, by the gaps that were thrown away.
-/

namespace AmrFramework.Perception

universe u

variable {K : Type u}

/-- One run of the timer callback: the clock, and what a tick would read from each sensor and
from the transform tree, if anything. -/
structure Callback (K : Type u) : Type u where
  nowNs : Int
  lidar : Option (LidarScan K)
  imu : Option (K × K)
  camera : Option (List Nat)
  transform : Option (Transform K)

/-- The tick of a callback. -/
def Callback.tickInput (c : Callback K) (dt : K) : TickInput K where
  dt := dt
  lidar := c.lidar
  imu := c.imu
  camera := c.camera
  transform := c.transform

/-- The data members that the callback works on, between `on_configure` and
`on_cleanup`. -/
structure FusionNode (K : Type u) [Field K] : Type u where
  perception : PerceptionService K
  lastTickNs : Int
  currentLevel : DegradationLevel

/-- A node that has just been configured: the time of the last callback is left
from before. -/
def FusionNode.configured [Field K] (lastTickNs : Int) : FusionNode K where
  perception := {}
  lastTickNs := lastTickNs
  currentLevel := .full

/-- `Duration::seconds`. -/
def seconds [Field K] (ns : Int) : K := ns / 1000000000

theorem seconds_add [Field K] (a b c : Int) :
    (seconds (b - a) : K) + seconds (c - b) = seconds (c - a) := by
  simp only [seconds]
  push_cast
  ring

section Node

variable [Field K] [LinearOrder K]

/-- The gap before a callback lets it tick. -/
def Accepted (lastTickNs nowNs : Int) : Prop :=
  0 < lastTickNs ∧ (0.001 : K) < seconds (nowNs - lastTickNs) ∧
    seconds (nowNs - lastTickNs) < (1.0 : K)

instance (lastTickNs nowNs : Int) : Decidable (Accepted (K := K) lastTickNs nowNs) :=
  inferInstanceAs (Decidable (_ ∧ _ ∧ _))

variable [CMath K]

/-- `FusionNode::timer_callback`, up to the level. -/
def timerCallback (cfg : PerceptionConfig K) (c : Callback K) (node : FusionNode K) :
    FusionNode K :=
  let perception :=
    if Accepted (K := K) node.lastTickNs c.nowNs then
      tick (c.tickInput (seconds (c.nowNs - node.lastTickNs))) node.perception
    else node.perception
  { perception := perception
    lastTickNs := c.nowNs
    currentLevel := perception.evaluateDegradation cfg }

/-- The node after the callbacks of a history. -/
def fusionAfter (cfg : PerceptionConfig K) (start : Int) (h : List (Callback K)) : FusionNode K :=
  h.foldr (timerCallback cfg) (.configured start)

@[simp] theorem fusionAfter_nil (cfg : PerceptionConfig K) (start : Int) :
    fusionAfter cfg start [] = .configured start := rfl

@[simp] theorem fusionAfter_cons (cfg : PerceptionConfig K) (start : Int) (c : Callback K)
    (h : List (Callback K)) :
    fusionAfter cfg start (c :: h) = timerCallback cfg c (fusionAfter cfg start h) := rfl

end Node

/-! ## What the clock says

Two times are told apart. `outage` is the time by the clock since the last successful read,
`ticked` the sum of the gaps that were accepted in it. -/

section Clock

/-- The time of the last callback. -/
def lastNs (start : Int) : List (Callback K) → Int
  | [] => start
  | c :: _ => c.nowNs

/-- The time of the first callback. -/
def firstNs (start : Int) (h : List (Callback K)) : Int := lastNs start h.reverse

variable [Field K] [LinearOrder K]

/-- The gap that a callback measures. -/
def gap (start : Int) (c : Callback K) (h : List (Callback K)) : K :=
  seconds (c.nowNs - lastNs start h)

/-- The callback ticks the service. -/
def Ticks (start : Int) (c : Callback K) (h : List (Callback K)) : Prop :=
  Accepted (K := K) (lastNs start h) c.nowNs

instance (start : Int) (c : Callback K) (h : List (Callback K)) : Decidable (Ticks start c h) :=
  inferInstanceAs (Decidable (Accepted _ _))

/-- The callback reads the sensor successfully. -/
def ReadsSensor (x : Sensor) (start : Int) (c : Callback K) (h : List (Callback K)) : Prop :=
  Ticks start c h ∧ x.Delivers (c.tickInput (gap start c h))

instance (x : Sensor) (start : Int) (c : Callback K) (h : List (Callback K)) :
    Decidable (ReadsSensor x start c h) :=
  inferInstanceAs (Decidable (_ ∧ _))

/-- The time of the last successful read of a sensor. -/
def lastReadNs (x : Sensor) (start : Int) : List (Callback K) → Option Int
  | [] => none
  | c :: h => if ReadsSensor x start c h then some c.nowNs else lastReadNs x start h

/-- For how long the reads of a sensor have failed: since its last successful
read, or since the first callback. -/
def outage (x : Sensor) (start : Int) (h : List (Callback K)) : K :=
  seconds (lastNs start h - (lastReadNs x start h).getD (firstNs start h))

/-- The gaps that were accepted since the last successful read of a sensor, or
since the first callback. -/
def ticked (x : Sensor) (start : Int) : List (Callback K) → K
  | [] => 0
  | c :: h =>
    if ReadsSensor x start c h then 0
    else if Ticks start c h then ticked x start h + gap start c h
    else ticked x start h

theorem ticked_nonneg [IsStrictOrderedRing K] (x : Sensor) (start : Int)
    (h : List (Callback K)) : 0 ≤ ticked x start h := by
  induction h with
  | nil => exact le_rfl
  | cons c h ih =>
    rw [ticked]
    split_ifs with hreads hticks
    · exact le_rfl
    · have hgap : (0.001 : K) < gap start c h := hticks.2.1
      have hpos : (0 : K) < 0.001 := by norm_num
      exact add_nonneg ih (hpos.trans hgap).le
    · exact ih

/-- Every callback since the last successful read of a sensor ticked. -/
def Unbroken (x : Sensor) (start : Int) : List (Callback K) → Prop
  | [] => False
  | c :: h => ReadsSensor x start c h ∨ (Ticks start c h ∧ Unbroken x start h)

/-- Without a dropped callback the gaps add up to what the clock says. -/
theorem Unbroken.ticked_eq {x : Sensor} {start : Int} {h : List (Callback K)}
    (hunbroken : Unbroken x start h) :
    lastReadNs x start h ≠ none ∧ ticked x start h = outage x start h := by
  induction h with
  | nil => exact hunbroken.elim
  | cons c h ih =>
    by_cases hreads : ReadsSensor x start c h
    · have hlast : lastReadNs x start (c :: h) = some c.nowNs := if_pos hreads
      refine ⟨by simp [hlast], ?_⟩
      rw [outage, hlast, ticked, if_pos hreads]
      simp [seconds, lastNs]
    · obtain ⟨hticks, hrest⟩ := hunbroken.resolve_left hreads
      obtain ⟨hdelivered, heq⟩ := ih hrest
      have hlast : lastReadNs x start (c :: h) = lastReadNs x start h := if_neg hreads
      obtain ⟨r, hr⟩ := Option.ne_none_iff_exists'.mp hdelivered
      refine ⟨hlast ▸ hdelivered, ?_⟩
      rw [ticked, if_neg hreads, if_pos hticks, heq, outage, outage, hlast, hr]
      exact seconds_add r (lastNs start h) c.nowNs

/-- The sensor is overdue by the gaps that were accepted. -/
def Overdue (cfg : PerceptionConfig K) (x : Sensor) (start : Int) (h : List (Callback K)) : Prop :=
  if lastReadNs x start h = none then
    ticked x start h < 1 ∨ 1 + x.timeout cfg < ticked x start h
  else x.timeout cfg < ticked x start h

end Clock

/-! ## What the ages say

An age is the sum of the gaps that were accepted since the last read, less one second if there
was none. It equals the time of the outage when every callback since then was accepted
(`Unbroken`). -/

section Ages

variable [Field K] [LinearOrder K] [CMath K]

/-- The node measures the next gap from every callback, accepted or not. -/
@[simp] theorem lastTickNs_fusionAfter (cfg : PerceptionConfig K) (start : Int)
    (h : List (Callback K)) : (fusionAfter cfg start h).lastTickNs = lastNs start h := by
  cases h <;> rfl

/-- One callback, for the perception service. -/
theorem perception_fusionAfter_cons (cfg : PerceptionConfig K) (start : Int) (c : Callback K)
    (h : List (Callback K)) :
    (fusionAfter cfg start (c :: h)).perception =
      if Ticks start c h then
        tick (c.tickInput (gap start c h)) (fusionAfter cfg start h).perception
      else (fusionAfter cfg start h).perception := by
  rw [fusionAfter_cons, timerCallback, lastTickNs_fusionAfter]
  rfl

variable [IsStrictOrderedRing K]

/-- Before the first successful read the age is behind by one second. -/
theorem age_fusionAfter (cfg : PerceptionConfig K) (x : Sensor) (start : Int)
    (h : List (Callback K)) :
    x.age (fusionAfter cfg start h).perception =
      if lastReadNs x start h = none then ticked x start h - 1 else ticked x start h := by
  induction h with
  | nil => cases x <;> norm_num [Sensor.age, lastReadNs, ticked, FusionNode.configured]
  | cons c h ih =>
    rw [perception_fusionAfter_cons, lastReadNs, ticked]
    by_cases hticks : Ticks start c h
    · rw [if_pos hticks, age_tick]
      by_cases hreads : x.Delivers (c.tickInput (gap start c h))
      · have hreads' : ReadsSensor x start c h := ⟨hticks, hreads⟩
        rw [if_pos hreads, if_pos hreads', if_pos hreads', if_neg (by simp)]
      · have hfails : ¬ ReadsSensor x start c h := fun h => hreads h.2
        rw [if_neg hreads, if_neg hfails, if_neg hfails, if_pos hticks, ih]
        split_ifs
        · exact sub_add_eq_add_sub _ _ _
        · rfl
    · have hfails : ¬ ReadsSensor x start c h := fun h => hticks h.1
      rw [if_neg hticks, if_neg hfails, if_neg hfails, if_neg hticks, ih]

/-- A sensor is counted missing by the gaps that were accepted. -/
theorem countedMissing_fusionAfter (cfg : PerceptionConfig K) (x : Sensor) (start : Int)
    (h : List (Callback K)) :
    CountedMissing cfg (fusionAfter cfg start h).perception x ↔ Overdue cfg x start h := by
  rw [countedMissing_iff, Missing, isStale_iff, age_fusionAfter, Overdue]
  split_ifs
  · rw [sub_neg, lt_sub_iff_add_lt']
  · exact or_iff_right (not_lt.mpr (ticked_nonneg x start h))

/-- As long as no callback is dropped, an outage is reported. -/
theorem Unbroken.countedMissing {cfg : PerceptionConfig K} {x : Sensor} {start : Int}
    {h : List (Callback K)} (hunbroken : Unbroken x start h)
    (houtage : x.timeout cfg < outage x start h) :
    CountedMissing cfg (fusionAfter cfg start h).perception x := by
  obtain ⟨hdelivered, heq⟩ := hunbroken.ticked_eq
  rw [countedMissing_fusionAfter, Overdue, if_neg hdelivered, heq]
  exact houtage

/-- **Exactly when a sensor is counted missing after an outage** longer than its timeout, in
every history of callbacks: the level is that of the service's ages, and the gaps that were
accepted exceed the timeout, too. Both come from `age_fusionAfter`, the invariant that says what
the age of a sensor is after any history. -/
theorem fusion_missing_iff (cfg : PerceptionConfig K) (x : Sensor) (start : Int) (c : Callback K)
    (h : List (Callback K)) :
    (fusionAfter cfg start (c :: h)).currentLevel =
        (fusionAfter cfg start (c :: h)).perception.evaluateDegradation cfg ∧
      ((x.timeout cfg < outage x start (c :: h) →
          CountedMissing cfg (fusionAfter cfg start (c :: h)).perception x) ↔
        (x.timeout cfg < outage x start (c :: h) → Overdue cfg x start (c :: h))) :=
  ⟨rfl, imp_congr_right fun _ => countedMissing_fusionAfter cfg x start (c :: h)⟩

end Ages

/-! ## A dropped callback

A single late callback is enough: it is dropped for being late, and the time that made it late is
never added to an age. -/

/-- A callback at a time in nanoseconds, with a camera and an IMU that work. -/
def fusionCallback (nowNs : Int) (lidar : Option (LidarScan ℝ)) : Callback ℝ where
  nowNs := nowNs
  lidar := lidar
  imu := some (0, 0)
  camera := some []
  transform := none

/-- A lidar that was never read is missing after two callbacks, although the second was
dropped. -/
theorem fusion_missing_unread :
    CountedMissing {} (fusionAfter {} 0
      [fusionCallback 10000000000 none, fusionCallback 1000000000 none]).perception .lidar := by
  have hnone : ∀ nowNs h, ¬ ReadsSensor .lidar 0 (fusionCallback nowNs none) h := by
    rintro nowNs h ⟨-, hdelivers⟩
    cases hdelivers
  have hunread : lastReadNs .lidar 0
      [fusionCallback 10000000000 none, fusionCallback 1000000000 none] = none := by
    simp only [lastReadNs, hnone, if_false]
  refine (fusion_missing_iff {} .lidar 0 _ _).2.mpr (fun _ => ?_) ?_
  · rw [Overdue, if_pos hunread]
    left
    norm_num [ticked, hnone, Ticks, Accepted, seconds, lastNs, fusionCallback]
  · rw [outage, hunread]
    norm_num [Sensor.timeout, seconds, lastNs, firstNs, fusionCallback]

/-- The lidar works at 1.2 s and fails at 1.4 s; the next callback comes 5 s
later and is dropped; at 6.6 s the lidar fails again. -/
noncomputable def lateCallback : List (Callback ℝ) :=
  [fusionCallback 6600000000 none, fusionCallback 6400000000 none, fusionCallback 1400000000 none,
    fusionCallback 1200000000 (some oneBeam), fusionCallback 1000000000 none]

/-- The lidar has been silent for 5.4 s, and the level is `FULL`. -/
theorem fusion_not_missing :
    Sensor.lidar.timeout {} < outage .lidar 0 lateCallback ∧
      (fusionAfter {} 0 lateCallback).currentLevel = .full ∧
      ¬ CountedMissing {} (fusionAfter {} 0 lateCallback).perception .lidar := by
  have hnone : ∀ nowNs h, ¬ ReadsSensor .lidar 0 (fusionCallback nowNs none) h := by
    rintro nowNs h ⟨-, hdelivers⟩
    cases hdelivers
  have hread : ReadsSensor .lidar 0 (fusionCallback 1200000000 (some oneBeam))
      [fusionCallback 1000000000 none] := by
    refine ⟨?_, rfl⟩
    norm_num [Ticks, Accepted, seconds, lastNs, fusionCallback]
  have hdropped : ¬ Ticks 0 (fusionCallback 6400000000 none) lateCallback.tail.tail := by
    norm_num [Ticks, Accepted, seconds, lastNs, fusionCallback, lateCallback]
  have hticks : Ticks 0 (fusionCallback 6600000000 none) lateCallback.tail := by
    norm_num [Ticks, Accepted, seconds, lastNs, fusionCallback, lateCallback]
  have hticked : ticked .lidar 0 lateCallback ≤ 0.4 := by
    have hrest : ticked .lidar 0 lateCallback.tail.tail.tail = 0 := if_pos hread
    have hfails : ticked .lidar 0 lateCallback.tail.tail ≤ 0.2 := by
      change ticked .lidar 0 (fusionCallback 1400000000 none :: lateCallback.tail.tail.tail) ≤ _
      rw [ticked, if_neg (hnone _ _), hrest]
      split_ifs
      · norm_num [gap, seconds, lastNs, fusionCallback, lateCallback]
      · norm_num
    have hlate : ticked .lidar 0 lateCallback.tail ≤ 0.2 := by
      change ticked .lidar 0 (fusionCallback 6400000000 none :: lateCallback.tail.tail) ≤ _
      rw [ticked, if_neg (hnone _ _), if_neg hdropped]
      exact hfails
    change ticked .lidar 0 (fusionCallback 6600000000 none :: lateCallback.tail) ≤ _
    rw [ticked, if_neg (hnone _ _), if_pos hticks]
    refine (add_le_add_left hlate _).trans ?_
    norm_num [gap, seconds, lastNs, fusionCallback, lateCallback]
  have hlast : lastReadNs .lidar 0 lateCallback = some 1200000000 := by
    simp only [lateCallback, lastReadNs, hnone, hread, if_true, if_false]
    rfl
  have hnotOverdue : ¬ Missing {} (fusionAfter {} 0 lateCallback).perception .lidar := by
    rw [← countedMissing_iff, countedMissing_fusionAfter, Overdue, hlast, if_neg (by simp)]
    refine not_lt.mpr (hticked.trans ?_)
    norm_num [Sensor.timeout]
  have hperception : (fusionAfter {} 0 lateCallback).perception =
      tick ((fusionCallback 6600000000 none).tickInput
          (gap 0 (fusionCallback 6600000000 none) lateCallback.tail))
        (fusionAfter {} 0 lateCallback.tail).perception :=
    (perception_fusionAfter_cons {} 0 _ lateCallback.tail).trans (if_pos hticks)
  have hfull : (fusionAfter {} 0 lateCallback).perception.evaluateDegradation {} = .full := by
    refine evaluateDegradation_eq_full_iff.mpr fun x => ?_
    cases x with
    | lidar => exact hnotOverdue
    | imu =>
      rw [hperception]
      exact not_missing_tick rfl (by norm_num [Sensor.timeout])
    | camera =>
      rw [hperception]
      exact not_missing_tick rfl (by norm_num [Sensor.timeout])
  refine ⟨?_, hfull, fun hmissing => hmissing.not_full hfull⟩
  rw [outage, hlast, Option.getD_some]
  norm_num [seconds, lastNs, lateCallback, fusionCallback, Sensor.timeout]

end AmrFramework.Perception
