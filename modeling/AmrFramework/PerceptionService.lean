import AmrFramework.DepthObstacleDetector

/-!
# The perception service

`PerceptionService` reads three sensors on every tick, keeps the age of each,
a copy of the last scan and the depth clusters of the last frame.
`DegradationPolicy` maps the ages to a level, and `fuse` maps the level to the
clusters that are published.

A history lists the ticks since construction, newest first.

Each sensor is read on its own and may fail on its own; a failed read leaves the data of an
earlier one in place and lets its age grow. Whether that data is still good is not asked where it
is stored but where it is used, by way of the level.
-/

namespace AmrFramework.Perception

universe u

variable {K : Type u} [Field K] [LinearOrder K]

/-! ## The degradation policy

One missing sensor is named by the level, more than one are `critical`. An age below zero counts
as missing, too: it is what a sensor starts with. -/

/-- Sensor degradation levels. One missing sensor has a level of its own, and two of them are
critical. -/
inductive DegradationLevel : Type
  | full
  | noLidar
  | noCamera
  | noImu
  | critical
  deriving DecidableEq, Repr

/-- `DegradationPolicy::Config`, in seconds. -/
structure DegradationConfig (K : Type u) [Field K] : Type u where
  lidarTimeout : K := 1.5
  imuTimeout : K := 0.5
  cameraTimeout : K := 3.0

/-- `is_stale`: a negative age means never received. -/
def IsStale (ageS timeoutS : K) : Prop := ageS < 0.0 ∨ timeoutS < ageS

instance (ageS timeoutS : K) : Decidable (IsStale ageS timeoutS) :=
  inferInstanceAs (Decidable (_ ∨ _))

/-- `DegradationPolicy::evaluate`. -/
def DegradationConfig.evaluate (cfg : DegradationConfig K) (lidarAgeS imuAgeS cameraAgeS : K) :
    DegradationLevel :=
  let missing := (if IsStale lidarAgeS cfg.lidarTimeout then 1 else 0) +
    (if IsStale imuAgeS cfg.imuTimeout then 1 else 0) +
    (if IsStale cameraAgeS cfg.cameraTimeout then 1 else 0)
  if 2 ≤ missing then .critical
  else if missing = 0 then .full
  else if IsStale lidarAgeS cfg.lidarTimeout then .noLidar
  else if IsStale imuAgeS cfg.imuTimeout then .noImu
  else if IsStale cameraAgeS cfg.cameraTimeout then .noCamera
  else .full

/-! ## The service

The buffer of ranges is a function on all indices: what it holds beyond `lidar_range_count` is
there in the source as well, and is read. -/

/-- What a service is constructed with. -/
structure PerceptionConfig (K : Type u) [Field K] : Type u where
  /-- the cluster backend; `none` is a null pointer -/
  cluster : Option (ClusterParams K) := some {}
  policy : DegradationConfig K := {}

/-- The data members. Ages are in seconds, and a negative one says that the sensor has not been
read yet. -/
structure PerceptionService (K : Type u) [Field K] : Type u where
  lidarRanges : Nat → Option K := fun _ => some 0.0
  lidarRangeCount : Nat := 0
  lidarAngleMin : K := 0.0
  lidarStampNs : Int := 0
  lidarAngleInc : K := 0.0
  imuAx : K := 0.0
  imuAy : K := 0.0
  depthClusters : List (Cluster K) := []
  lidarAgeS : K := -1.0
  imuAgeS : K := -1.0
  cameraAgeS : K := -1.0

/-- A call of `tick`: what each sensor's `read` delivers, if it succeeds, and
the transform that is found. -/
structure TickInput (K : Type u) : Type u where
  dt : K
  lidar : Option (LidarScan K)
  /-- the linear accelerations -/
  imu : Option (K × K)
  /-- the depth line of the frame, in millimetres -/
  camera : Option (List Nat)
  transform : Option (Transform K)

variable [CMath K]

/-- The scan that a tick goes on with. -/
def TickInput.scan (i : TickInput K) : Option (LidarScan K) :=
  i.lidar.map fun scan =>
    match i.transform with
    | some t => transformScan t scan
    | none => scan

/-- `std::copy` into the buffer. -/
def copyRanges (scan : LidarScan K) (buffer : Nat → Option K) (i : Nat) : Option K :=
  (scan.ranges[i]?).getD (buffer i)

/-- `PerceptionService::tick`: the ages first, then the data of the sensors that delivered. -/
def tick (i : TickInput K) (s : PerceptionService K) : PerceptionService K :=
  let aged : PerceptionService K :=
    { s with
      lidarAgeS := if i.lidar.isSome then 0.0 else s.lidarAgeS + i.dt
      imuAgeS := if i.imu.isSome then 0.0 else s.imuAgeS + i.dt
      cameraAgeS := if i.camera.isSome then 0.0 else s.cameraAgeS + i.dt }
  let scanned : PerceptionService K :=
    match i.scan with
    | some scan =>
      { aged with
        lidarRanges := copyRanges scan s.lidarRanges
        lidarRangeCount := scan.ranges.length
        lidarStampNs := scan.stampNs
        lidarAngleMin := scan.angleMin
        lidarAngleInc := scan.angleIncrement }
    | none => aged
  let moved : PerceptionService K :=
    match i.imu with
    | some (ax, ay) => { scanned with imuAx := ax, imuAy := ay }
    | none => scanned
  { moved with
    depthClusters :=
      match i.camera with
      | some depth => if depth.isEmpty then [] else ({} : DepthObstacleParams K).detect depth
      | none => [] }

/-- `evaluate_degradation`. -/
def PerceptionService.evaluateDegradation (cfg : PerceptionConfig K) (s : PerceptionService K) :
    DegradationLevel :=
  cfg.policy.evaluate s.lidarAgeS s.imuAgeS s.cameraAgeS

/-- `fuse`: the clusters of the sensors that the level still trusts, and nothing without a
backend. -/
def PerceptionService.fuse (cfg : PerceptionConfig K) (s : PerceptionService K)
    (degradation : DegradationLevel) : List (Cluster K) :=
  match cfg.cluster with
  | none => []
  | some cluster =>
    let clusters :=
      match degradation with
      | .full | .noCamera | .noImu =>
        if 0 < s.lidarRangeCount then
          cluster.detect s.lidarRanges s.lidarAngleMin s.lidarAngleInc
        else []
      | .noLidar | .critical => []
    -- depth clusters merge only when the camera is trusted
    if degradation = .full ∨ degradation = .noImu then merge clusters s.depthClusters
    else clusters

/-- The service after the ticks of a history. -/
def after (h : List (TickInput K)) : PerceptionService K := h.foldr tick {}

@[simp] theorem after_nil : after ([] : List (TickInput K)) = {} := rfl

@[simp] theorem after_cons (i : TickInput K) (h : List (TickInput K)) :
    after (i :: h) = tick i (after h) := rfl

end AmrFramework.Perception
