import AmrFramework.PerceptionService

/-!
# Sensor ages

The age of a sensor is the time of the ticks since its last successful read. It
starts at `-1`, which stands for "never received", and a failed read adds the
time of the tick whether or not anything was received before.

`never_delivered_missing_iff` says how long that sign lasts: a sensor that never
delivered is counted missing until the ticks have taken one second, and then
again when they have taken one second more than its timeout.

The three sensors differ in nothing but which field they write, so that everything here is stated
once for a `Sensor` and its accessors. The argument is an induction on the history: as long as a
sensor delivers nothing, its age is the sum of the ticks less one (`age_never`).
-/

namespace AmrFramework.Perception

universe u

/-- The three sensors of the service. -/
inductive Sensor : Type
  | lidar
  | imu
  | camera
  deriving DecidableEq, Repr

/-- The level that reports an outage of one sensor. -/
def Sensor.outage : Sensor → DegradationLevel
  | .lidar => .noLidar
  | .imu => .noImu
  | .camera => .noCamera

variable {K : Type u}

/-- The tick reads the sensor successfully. -/
def Sensor.Delivers (x : Sensor) (i : TickInput K) : Prop :=
  match x with
  | .lidar => i.lidar.isSome
  | .imu => i.imu.isSome
  | .camera => i.camera.isSome

instance (x : Sensor) (i : TickInput K) : Decidable (x.Delivers i) :=
  match x with
  | .lidar => inferInstanceAs (Decidable (_ = true))
  | .imu => inferInstanceAs (Decidable (_ = true))
  | .camera => inferInstanceAs (Decidable (_ = true))

variable [Field K]

/-- The age of a sensor. -/
def Sensor.age (x : Sensor) (s : PerceptionService K) : K :=
  match x with
  | .lidar => s.lidarAgeS
  | .imu => s.imuAgeS
  | .camera => s.cameraAgeS

/-- The timeout of a sensor. -/
def Sensor.timeout (x : Sensor) (cfg : PerceptionConfig K) : K :=
  match x with
  | .lidar => cfg.policy.lidarTimeout
  | .imu => cfg.policy.imuTimeout
  | .camera => cfg.policy.cameraTimeout

variable [LinearOrder K]

/-- The policy takes the sensor for missing. -/
def Missing (cfg : PerceptionConfig K) (s : PerceptionService K) (x : Sensor) : Prop :=
  IsStale (x.age s) (x.timeout cfg)

instance (cfg : PerceptionConfig K) (s : PerceptionService K) (x : Sensor) :
    Decidable (Missing cfg s x) :=
  inferInstanceAs (Decidable (IsStale _ _))

/-- The level, from the sensors that are missing. -/
theorem evaluateDegradation_eq (cfg : PerceptionConfig K) (s : PerceptionService K) :
    s.evaluateDegradation cfg =
      if Missing cfg s .lidar then
        if Missing cfg s .imu ∨ Missing cfg s .camera then .critical else .noLidar
      else if Missing cfg s .imu then
        if Missing cfg s .camera then .critical else .noImu
      else if Missing cfg s .camera then .noCamera
      else .full := by
  simp only [PerceptionService.evaluateDegradation, DegradationConfig.evaluate, Missing,
    Sensor.age, Sensor.timeout]
  by_cases hlidar : IsStale s.lidarAgeS cfg.policy.lidarTimeout <;>
    by_cases himu : IsStale s.imuAgeS cfg.policy.imuTimeout <;>
    by_cases hcamera : IsStale s.cameraAgeS cfg.policy.cameraTimeout <;>
    simp [hlidar, himu, hcamera]

/-- `FULL` is the level without a missing sensor. -/
theorem evaluateDegradation_eq_full_iff {cfg : PerceptionConfig K} {s : PerceptionService K} :
    s.evaluateDegradation cfg = .full ↔ ∀ x, ¬ Missing cfg s x := by
  rw [evaluateDegradation_eq]
  constructor
  · intro hfull x hmissing
    cases x <;> rw [if_pos hmissing] at hfull <;> split_ifs at hfull
  · intro hnone
    rw [if_neg (hnone _), if_neg (hnone _), if_neg (hnone _)]

/-- The only missing sensor is the one that the level names. -/
theorem evaluateDegradation_eq_outage {cfg : PerceptionConfig K} {s : PerceptionService K}
    {x : Sensor} (hmissing : Missing cfg s x) (hothers : ∀ y ≠ x, ¬ Missing cfg s y) :
    s.evaluateDegradation cfg = x.outage := by
  rw [evaluateDegradation_eq]
  cases x with
  | lidar =>
    have himu := hothers .imu (by decide)
    have hcamera := hothers .camera (by decide)
    rw [if_pos hmissing, if_neg (not_or.mpr ⟨himu, hcamera⟩)]
    rfl
  | imu =>
    rw [if_neg (hothers .lidar (by decide)), if_pos hmissing, if_neg (hothers .camera (by decide))]
    rfl
  | camera =>
    rw [if_neg (hothers .lidar (by decide)), if_neg (hothers .imu (by decide)), if_pos hmissing]
    rfl

/-- A sensor is counted missing: the policy takes it for missing, the level is
not `FULL`, and it names the sensor when no other is missing. -/
structure CountedMissing (cfg : PerceptionConfig K) (s : PerceptionService K) (x : Sensor) :
    Prop where
  missing : Missing cfg s x
  not_full : s.evaluateDegradation cfg ≠ .full
  alone : (∀ y ≠ x, ¬ Missing cfg s y) → s.evaluateDegradation cfg = x.outage

/-- The three parts come to the same thing: a sensor that is missing shows in the level. -/
theorem countedMissing_iff {cfg : PerceptionConfig K} {s : PerceptionService K} {x : Sensor} :
    CountedMissing cfg s x ↔ Missing cfg s x := by
  constructor
  · exact CountedMissing.missing
  · intro hmissing
    exact ⟨hmissing, fun hfull => evaluateDegradation_eq_full_iff.mp hfull x hmissing,
      evaluateDegradation_eq_outage hmissing⟩

variable [IsStrictOrderedRing K]

/-- The comparison with the literal zero. -/
theorem isStale_iff {ageS timeoutS : K} : IsStale ageS timeoutS ↔ ageS < 0 ∨ timeoutS < ageS := by
  norm_num [IsStale]

variable [CMath K]

/-- One tick, for one sensor. -/
theorem age_tick (x : Sensor) (i : TickInput K) (s : PerceptionService K) :
    x.age (tick i s) = if x.Delivers i then 0 else x.age s + i.dt := by
  have hzero : (0.0 : K) = 0 := by norm_num
  cases x <;> simp only [tick, Sensor.age, Sensor.Delivers, hzero] <;> split <;> split <;> rfl

/-- A sensor that has just delivered is there. -/
theorem not_missing_tick {cfg : PerceptionConfig K} {x : Sensor} {i : TickInput K}
    {s : PerceptionService K} (hi : x.Delivers i) (htimeout : 0 ≤ x.timeout cfg) :
    ¬ Missing cfg (tick i s) x := by
  rw [Missing, isStale_iff, age_tick, if_pos hi]
  exact not_or.mpr ⟨lt_irrefl 0, not_lt.mpr htimeout⟩

/-- The age of a sensor that never delivered. -/
theorem age_never {x : Sensor} {h : List (TickInput K)} (hnever : ∀ i ∈ h, ¬ x.Delivers i) :
    x.age (after h) = (h.map TickInput.dt).sum - 1 := by
  induction h with
  | nil => cases x <;> norm_num [Sensor.age]
  | cons i h ih =>
    have hi := hnever i List.mem_cons_self
    have hrest := ih fun j hj => hnever j (List.mem_cons_of_mem _ hj)
    rw [after_cons, age_tick, if_neg hi, hrest, List.map_cons, List.sum_cons]
    ring

/-- **Exactly when a sensor that never delivered is counted missing**: while the ticks have taken
less than one second, and once they have taken more than one second and the timeout. In between
its age lies in the range of a sensor that was read a short while ago, although it never was: the
age that stands for "never" is a number like any other, and a failed read adds to it. -/
theorem never_delivered_missing_iff (cfg : PerceptionConfig K) (x : Sensor)
    (h : List (TickInput K)) (hnever : ∀ i ∈ h, ¬ x.Delivers i) :
    CountedMissing cfg (after h) x ↔
      (h.map TickInput.dt).sum < 1 ∨ 1 + x.timeout cfg < (h.map TickInput.dt).sum := by
  rw [countedMissing_iff, Missing, isStale_iff, age_never hnever, sub_neg, lt_sub_iff_add_lt']

/-- A tick of 200 ms in which the lidar has nothing to read. -/
def lidarSilent : TickInput K where
  dt := 0.2
  lidar := none
  imu := some (0, 0)
  camera := some []
  transform := none

theorem lidarSilent_never {h : List (TickInput ℝ)} (hall : ∀ i ∈ h, i = lidarSilent) :
    ∀ i ∈ h, ¬ Sensor.lidar.Delivers i := by
  rintro i hi hdelivers
  rw [hall i hi] at hdelivers
  cases hdelivers

/-- After the first of these ticks the lidar is missing. -/
theorem never_delivered_missing_first :
    CountedMissing ({} : PerceptionConfig ℝ) (after [lidarSilent]) .lidar :=
  (never_delivered_missing_iff {} .lidar [lidarSilent] (lidarSilent_never (by simp))).mpr
    (.inl (by norm_num [lidarSilent]))

/-- After six of them the level is `FULL`. -/
theorem never_delivered_full :
    ∃ h : List (TickInput ℝ), (∀ i ∈ h, 0 < i.dt) ∧ (∀ i ∈ h, ¬ Sensor.lidar.Delivers i) ∧
      (after h).evaluateDegradation {} = .full ∧ ¬ CountedMissing {} (after h) .lidar := by
  have hall : ∀ i ∈ List.replicate 6 (lidarSilent (K := ℝ)), i = lidarSilent :=
    fun i hi => List.eq_of_mem_replicate hi
  have hfull :
      (after (List.replicate 6 (lidarSilent (K := ℝ)))).evaluateDegradation {} = .full := by
    refine evaluateDegradation_eq_full_iff.mpr fun x => ?_
    cases x with
    | lidar =>
      rw [Missing, isStale_iff, age_never (lidarSilent_never hall)]
      norm_num [lidarSilent, Sensor.timeout]
    | imu =>
      rw [List.replicate_succ, after_cons]
      exact not_missing_tick rfl (by norm_num [Sensor.timeout])
    | camera =>
      rw [List.replicate_succ, after_cons]
      exact not_missing_tick rfl (by norm_num [Sensor.timeout])
  refine ⟨_, ?_, lidarSilent_never hall, hfull, fun hmissing => hmissing.not_full hfull⟩
  intro i hi
  rw [hall i hi]
  norm_num [lidarSilent]

end AmrFramework.Perception
