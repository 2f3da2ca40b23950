import AmrFramework.FusionNode
import AmrFramework.ScanBuffer
import AmrFramework.TrackerIdentity
import Std.Data.String.ToInt

/-!
# What the fusion node publishes

The timer callback evaluates the level and asks the stamp gate whether the scan is
fresh. If it is, the clusters of that level go to the tracker, and all tracks are
published; if it is not, the callback ends there.

A track outlives the detection it was made for by some frames. What is published
is therefore not what the sensors see now. It is what they saw, by a scan that was
fresh, at one of the last publications (`published_seen`).

Two clocks decide what is trusted, and they are not the same: the age of a sensor, which the
levels of degradation go by, counts from the last successful read, while the stamp gate compares
the stamp in the message with the time of the callback. A publication needs both.
-/

namespace AmrFramework.Perception

open Runs

universe u

variable {K : Type u}

/-! ## The stamp gate

The gate knows its sensors by name. A name without a tolerance is rejected, and counted apart
from the stale ones. -/

inductive Verdict : Type
  | ok
  | stale
  deriving DecidableEq, Repr

structure StampGate : Type where
  tolerances : String → Option Int := fun _ => none
  staleCounts : String → Nat := fun _ => 0
  unknownRejects : Nat := 0

def StampGate.setTolerance (g : StampGate) (sensor : String) (staleNs : Int) : StampGate :=
  { g with tolerances := Function.update g.tolerances sensor (some staleNs) }

/-- `check`: a sensor without a tolerance is rejected, and so is a scan without a stamp. -/
def StampGate.check (g : StampGate) (sensor : String) (stampNs nowNs : Int) : Verdict × StampGate :=
  match g.tolerances sensor with
  | none => (.stale, { g with unknownRejects := g.unknownRejects + 1 })
  | some tolerance =>
    if stampNs = 0 ∨ nowNs - stampNs > tolerance then
      (.stale,
        { g with staleCounts := Function.update g.staleCounts sensor (g.staleCounts sensor + 1) })
    else (.ok, g)

variable {g : StampGate} {sensor : String} {stampNs nowNs : Int}

@[simp] theorem check_tolerances :
    (g.check sensor stampNs nowNs).2.tolerances = g.tolerances := by
  rw [StampGate.check]
  split
  · rfl
  · split <;> rfl

theorem check_ok_iff : (g.check sensor stampNs nowNs).1 = .ok ↔
    ∃ tolerance, g.tolerances sensor = some tolerance ∧ stampNs ≠ 0 ∧
      nowNs - stampNs ≤ tolerance := by
  rw [StampGate.check]
  cases htolerance : g.tolerances sensor with
  | none => simp
  | some tolerance =>
    dsimp only
    split
    · next hstale =>
      refine iff_of_false nofun ?_
      rintro ⟨_, heq, hstamp, hfresh⟩
      obtain rfl := Option.some.inj heq
      exact hstale.elim hstamp (not_lt.mpr hfresh)
    · next hfresh =>
      rw [not_or, gt_iff_lt, not_lt] at hfresh
      exact iff_of_true rfl ⟨tolerance, rfl, hfresh⟩

/-! ## The timer callback

A callback either publishes, and then the tracker has had one frame with what was fused, or ends
at the gate and leaves the tracker alone. A history of callbacks therefore has a shorter history
of publications inside it, and it is the latter that the tracker counts in. -/

/-- The parameters of the node. -/
structure FusionConfig (K : Type u) [Field K] : Type u where
  perception : PerceptionConfig K := {}
  staleLidarTolNs : Int := 200 * 1000000
  staleImuTolNs : Int := 100 * 1000000
  /-- for tests -/
  injectStampAgeNs : Int := 0

/-- An object of a perception message. -/
structure DetectedObject (K : Type u) : Type u where
  id : String
  x : K
  y : K
  z : K
  category : String

variable [Field K]

def TrackedObject.toMessage (c : TrackedObject K) : DetectedObject K where
  id := "trk_" ++ toString c.trackId
  x := c.x
  y := c.y
  z := 0.0
  category := c.category

/-- The members that the whole callback works on: those of the tick, and what stands before and
behind it. -/
structure Fusion (K : Type u) [Field K] : Type u where
  node : FusionNode K
  tracker : MultiObjectTracker K := {}
  stampGate : StampGate
  lidarStaleRejects : Nat := 0

def Fusion.configured (cfg : FusionConfig K) (lastTickNs : Int) : Fusion K where
  node := .configured lastTickNs
  stampGate := (({} : StampGate).setTolerance "lidar" cfg.staleLidarTolNs).setTolerance "imu"
    cfg.staleImuTolNs

/-- The stamp in `lidar_snapshot`; 0 for no scan, and for a scan that has none. -/
def PerceptionService.snapshotStampNs (s : PerceptionService K) : Int :=
  if s.lidarRangeCount = 0 then 0 else s.lidarStampNs

/-- The stamp that the gate is asked about: a scan without one is taken as new. In tests an age
can be added. -/
def FusionConfig.gateStampNs (cfg : FusionConfig K) (nowNs : Int) (s : PerceptionService K) : Int :=
  (if s.snapshotStampNs = 0 then nowNs else s.snapshotStampNs) - cfg.injectStampAgeNs

variable [LinearOrder K] [CMath K]

/-- The clusters of the level. -/
def FusionConfig.fused (cfg : FusionConfig K) (node : FusionNode K) : List (Cluster K) :=
  node.perception.fuse cfg.perception node.currentLevel

/-- What `fuse_tracked` gives the tracker: the accelerations are those of what stands still, as
it is seen from the robot. -/
def FusionConfig.frame (cfg : FusionConfig K) (node : FusionNode K) (dt : K) : Frame K where
  detections := cfg.fused node
  dt := dt
  ax := -node.perception.imuAx
  ay := -node.perception.imuAy

/-- `timer_callback`: the message, if one is published. A scan that the gate rejects is counted,
and nothing else is done with it. -/
def Fusion.timerCallback (cfg : FusionConfig K) (c : Callback K) (s : Fusion K) :
    Option (List (DetectedObject K)) × Fusion K :=
  let dt : K := if 0 < s.node.lastTickNs then seconds (c.nowNs - s.node.lastTickNs) else 0.2
  let node := Perception.timerCallback cfg.perception c s.node
  let checked := s.stampGate.check "lidar" (cfg.gateStampNs c.nowNs node.perception) c.nowNs
  let s := { s with node := node, stampGate := checked.2 }
  match checked.1 with
  | .stale => (none, { s with lidarStaleRejects := s.lidarStaleRejects + 1 })
  | .ok =>
    let (tracked, tracker) := s.tracker.update (cfg.frame node dt)
    (some (tracked.map TrackedObject.toMessage), { s with tracker := tracker })

/-- After the callbacks of a history, newest first. The tracker is threaded through those that
publish. -/
def fusedAfter (cfg : FusionConfig K) (start : Int) (h : List (Callback K)) : Fusion K :=
  h.foldr (fun c s => (s.timerCallback cfg c).2) (.configured cfg start)

/-- The message of the newest callback. -/
def published (cfg : FusionConfig K) (start : Int) :
    List (Callback K) → Option (List (DetectedObject K))
  | [] => none
  | c :: h => ((fusedAfter cfg start h).timerCallback cfg c).1

/-- The histories that ended with a message, newest first. Each stands for the callback that it
ends with. -/
def publications (cfg : FusionConfig K) (start : Int) :
    List (Callback K) → List (List (Callback K))
  | [] => []
  | c :: h =>
    if (published cfg start (c :: h)).isSome then (c :: h) :: publications cfg start h
    else publications cfg start h

/-! ## One callback

What a callback does to the parts of the node one at a time. The perception and the levels run as
they do without the tracker (`node_fusedAfter`), so what is known of the ages carries over. -/

variable {cfg : FusionConfig K} {start : Int} {c : Callback K} {h : List (Callback K)}

/-- Only a callback that publishes a message gives the tracker a frame. One that does not leaves
the tracks as they are, without a miss. -/
theorem timerCallback_cases (cfg : FusionConfig K) (c : Callback K) (s : Fusion K) :
    let s' := (s.timerCallback cfg c).2
    s'.node = timerCallback cfg.perception c s.node ∧
    s'.stampGate.tolerances = s.stampGate.tolerances ∧
    (((s.timerCallback cfg c).1 = none ∧ s'.tracker = s.tracker) ∨
      ∃ dt, (s.timerCallback cfg c).1 = some
          ((s.tracker.update (cfg.frame s'.node dt)).1.map TrackedObject.toMessage) ∧
        s'.tracker = (s.tracker.update (cfg.frame s'.node dt)).2) := by
  rw [Fusion.timerCallback]
  dsimp only
  split
  · exact ⟨rfl, check_tolerances, .inl ⟨rfl, rfl⟩⟩
  · exact ⟨rfl, check_tolerances, .inr ⟨_, rfl, rfl⟩⟩

theorem fusedAfter_cons :
    fusedAfter cfg start (c :: h) = ((fusedAfter cfg start h).timerCallback cfg c).2 := rfl

theorem node_fusedAfter (cfg : FusionConfig K) (start : Int) (h : List (Callback K)) :
    (fusedAfter cfg start h).node = fusionAfter cfg.perception start h := by
  induction h with
  | nil => rfl
  | cons c h ih =>
    rw [fusedAfter_cons, (timerCallback_cases cfg c _).1, ih]
    rfl

theorem tolerances_fusedAfter (cfg : FusionConfig K) (start : Int) (h : List (Callback K)) :
    (fusedAfter cfg start h).stampGate.tolerances "lidar" = some cfg.staleLidarTolNs := by
  induction h with
  | nil => simp [fusedAfter, Fusion.configured, StampGate.setTolerance]
  | cons c h ih => rw [fusedAfter_cons, (timerCallback_cases cfg c _).2.1, ih]

/-! ## What was seen

`Seen` is the invariant of a track: as many publications ago as its counter says, a cluster of
its kind was fused. A match resets the counter and makes that cluster the newest one; a miss
makes the counter and the distance in the history one larger at the same time. -/

/-- The detections of the last frames, newest first: when the track was last detected, it was of
the kind that it has. -/
def InternalTrack.Seen (track : InternalTrack K) (dets : List (List (Cluster K))) : Prop :=
  ∃ k : Nat, track.missCount = k ∧ ∃ ds, dets[k]? = some ds ∧
    ∃ det ∈ ds, det.category = track.category

/-- **One frame**: a track is detected in it, or was seen before. A track that is started in the
frame is started by a detection. -/
theorem MultiObjectTracker.grown_seen {t : MultiObjectTracker K} {dets : List (List (Cluster K))}
    (ht : ∀ track ∈ t.tracks, track.Seen dets) (i : Frame K) :
    ∀ track ∈ (t.grown i).1, track.Seen (i.detections :: dets) := by
  have hdet : ∀ {d}, d < i.detections.length → i.det d ∈ i.detections := by
    intro d hd
    rw [Frame.det, List.getD_eq_getElem?_getD, List.getElem?_eq_getElem hd]
    exact List.getElem_mem hd
  intro track htrack
  obtain ⟨⟨old, _ | d⟩, hp, rfl⟩ | ⟨d, hd, id, rfl⟩ := mem_grown t i htrack
  · obtain ⟨k, hmiss, ds, hds, hcategory⟩ := ht old (mem_pairs t i hp)
    exact ⟨k + 1, by simp [associated, InternalTrack.after, hmiss], ds, hds, hcategory⟩
  · exact ⟨0, rfl, _, rfl, i.det d, hdet (reach_of_mem_pairs t i hp).1, rfl⟩
  · exact ⟨0, rfl, _, rfl, i.det d, hdet (lt_of_mem_started t i hd), rfl⟩

/-- A track that was missed more often is dropped, so one that is kept was not. -/
theorem MultiObjectTracker.missCount_update_le {t : MultiObjectTracker K} {i : Frame K}
    {track : InternalTrack K} (htrack : track ∈ (t.update i).2.tracks) :
    track.missCount ≤ (t.update i).2.params.maxMissedFrames :=
  not_lt.mp (of_decide_eq_true (List.mem_filter.mp htrack).2)

/-- The clusters of the publications, newest first: what the tracker has been given. -/
def detectionsOf (cfg : FusionConfig K) (start : Int) (h : List (Callback K)) :
    List (List (Cluster K)) :=
  (publications cfg start h).map fun p => cfg.fused (fusionAfter cfg.perception start p)

/-- The tracker between the callbacks: its numbers have been given once each, and every track
goes back to detections. -/
structure Tracking (cfg : FusionConfig K) (start : Int) (h : List (Callback K))
    (t : MultiObjectTracker K) : Prop where
  numbered : ∃ e, Numbered {} e t
  seen : ∀ track ∈ t.tracks, track.Seen (detectionsOf cfg start h)

/-- **The tracker between the callbacks**, by induction on the history. A callback that does not
publish changes neither side; one that does is a frame of the tracker. -/
theorem fusedAfter_tracking (cfg : FusionConfig K) (start : Int) (h : List (Callback K)) :
    Tracking cfg start h (fusedAfter cfg start h).tracker := by
  induction h with
  | nil =>
    exact ⟨⟨[], rfl, rfl, List.nodup_nil, nofun, Int.natCast_nonneg 20, nofun, nofun⟩, nofun⟩
  | cons c h ih =>
    rw [fusedAfter_cons]
    obtain ⟨hnode, -, ⟨hnone, htracker⟩ | ⟨dt, hsome, htracker⟩⟩ :=
      timerCallback_cases cfg c (fusedAfter cfg start h)
    · have hpublications : publications cfg start (c :: h) = publications cfg start h := by
        rw [publications, published, hnone]
        rfl
      rw [htracker]
      refine ⟨ih.numbered, ?_⟩
      rw [detectionsOf, hpublications]
      exact ih.seen
    · have hpublications : publications cfg start (c :: h) =
          (c :: h) :: publications cfg start h := by
        rw [publications, published, hsome]
        rfl
      obtain ⟨e, hnumbered⟩ := ih.numbered
      rw [htracker]
      refine ⟨⟨_, hnumbered.update _⟩, fun track htrack => ?_⟩
      rw [detectionsOf, hpublications, List.map_cons, ← node_fusedAfter, fusedAfter_cons]
      exact MultiObjectTracker.grown_seen ih.seen _ track (List.mem_of_mem_filter htrack)

/-! ## What is published

The number of missed frames that is forgiven is five, and the cluster of a frame comes with a
counter of zero; so the last six publications are what a message can go back to. -/

/-- Neither was the lidar overdue, nor its scan old. The two are tested by different clocks: the
age since the last reading, and the stamp of the scan. -/
structure FusionConfig.Trusted (cfg : FusionConfig K) (nowNs : Int) (node : FusionNode K) :
    Prop where
  lidar : ¬ IsStale node.perception.lidarAgeS cfg.perception.policy.lidarTimeout
  fresh : node.perception.snapshotStampNs ≠ 0 →
    nowNs - (node.perception.snapshotStampNs - cfg.injectStampAgeNs) ≤ cfg.staleLidarTolNs

omit [CMath K] in
/-- Without the lidar the level is one of the two at which nothing is fused. -/
theorem evaluate_lidar {policy : DegradationConfig K} {lidarAgeS imuAgeS cameraAgeS : K}
    (hstale : IsStale lidarAgeS policy.lidarTimeout) :
    policy.evaluate lidarAgeS imuAgeS cameraAgeS = .noLidar ∨
      policy.evaluate lidarAgeS imuAgeS cameraAgeS = .critical := by
  rw [DegradationConfig.evaluate]
  simp only [if_pos hstale]
  split_ifs
  all_goals first | exact .inr rfl | exact .inl rfl | omega

/-- Nothing is fused without the lidar: at the two levels without it `fuse` returns nothing. -/
theorem fuse_level {s : PerceptionService K} {level : DegradationLevel} {det : Cluster K}
    (hdet : det ∈ s.fuse cfg.perception level) : level ≠ .noLidar ∧ level ≠ .critical := by
  rw [PerceptionService.fuse] at hdet
  refine ⟨?_, ?_⟩
  all_goals
    rintro rfl
    split at hdet
    · cases hdet
    · simp at hdet

theorem currentLevel_fusionAfter (cfg : PerceptionConfig K) (start : Int) (c : Callback K)
    (h : List (Callback K)) : (fusionAfter cfg start (c :: h)).currentLevel =
      (fusionAfter cfg start (c :: h)).perception.evaluateDegradation cfg := rfl

/-- A message is published exactly when the stamp is fresh. There may be nothing in it. -/
theorem published_isSome_iff : (published cfg start (c :: h)).isSome = true ↔
    cfg.gateStampNs c.nowNs (fusionAfter cfg.perception start (c :: h)).perception ≠ 0 ∧
      c.nowNs - cfg.gateStampNs c.nowNs (fusionAfter cfg.perception start (c :: h)).perception ≤
        cfg.staleLidarTolNs := by
  have hverdict : ∀ {stampNs}, ((fusedAfter cfg start h).stampGate.check "lidar" stampNs c.nowNs).1 =
      .ok ↔ stampNs ≠ 0 ∧ c.nowNs - stampNs ≤ cfg.staleLidarTolNs := by
    intro stampNs
    rw [check_ok_iff, tolerances_fusedAfter]
    simp
  rw [published, fusionAfter_cons, ← hverdict, Fusion.timerCallback, node_fusedAfter]
  dsimp only
  split
  · next hstale => simp [hstale]
  · next hok => simp [hok]

/-- A callback that published a message trusted its scan, if it fused anything: the stamp passed
the gate, and the level was one with the lidar. -/
theorem published_trusted (hpub : (published cfg start (c :: h)).isSome = true) {det : Cluster K}
    (hdet : det ∈ cfg.fused (fusionAfter cfg.perception start (c :: h))) :
    cfg.Trusted c.nowNs (fusionAfter cfg.perception start (c :: h)) := by
  refine ⟨fun hstale => ?_, fun hstamp => ?_⟩
  · obtain ⟨hlidar, hcritical⟩ := fuse_level hdet
    rw [currentLevel_fusionAfter] at hlidar hcritical
    obtain h | h := evaluate_lidar hstale
    · exact hlidar h
    · exact hcritical h
  · have hfresh := (published_isSome_iff.mp hpub).2
    rwa [FusionConfig.gateStampNs, if_neg hstamp] at hfresh

theorem mem_publications {p : List (Callback K)} (hp : p ∈ publications cfg start h) :
    p <:+ h ∧ ∃ c h', p = c :: h' ∧ (published cfg start (c :: h')).isSome = true := by
  induction h with
  | nil => cases hp
  | cons c h ih =>
    rw [publications] at hp
    split at hp
    · next hpub =>
      obtain rfl | hp := List.mem_cons.mp hp
      · exact ⟨List.suffix_rfl, c, h, rfl, hpub⟩
      · obtain ⟨hsuffix, hrest⟩ := ih hp
        exact ⟨hsuffix.trans (List.suffix_cons c h), hrest⟩
    · obtain ⟨hsuffix, hrest⟩ := ih hp
      exact ⟨hsuffix.trans (List.suffix_cons c h), hrest⟩

theorem toMessage_id_injective {a b : Int} (h : "trk_" ++ toString a = "trk_" ++ toString b) :
    a = b :=
  Int.repr_injective ((String.append_right_inj "trk_").mp h)

/-- **What is published was seen**: in any history of callbacks, the objects of a message have
different ids, and each is of the kind of a cluster that was fused at one of the last six
publications, this one included, when the lidar was not overdue and its scan was fresh.

The ids come from the numbers of the tracks, of which `Numbered` says that they are distinct; the
cluster comes from `Seen`, and that it was trusted from the publication that it belongs to. -/
theorem published_seen (cfg : FusionConfig K) (start : Int) {c : Callback K}
    {h : List (Callback K)} {objects : List (DetectedObject K)}
    (hpub : published cfg start (c :: h) = some objects) :
    (objects.map DetectedObject.id).Nodup ∧ objects.length ≤ 20 ∧
    ∀ obj ∈ objects, ∃ k ≤ 5, ∃ c' h', (publications cfg start (c :: h))[k]? = some (c' :: h') ∧
      c' :: h' <:+ c :: h ∧ cfg.Trusted c'.nowNs (fusionAfter cfg.perception start (c' :: h')) ∧
      ∃ det ∈ cfg.fused (fusionAfter cfg.perception start (c' :: h')),
        det.category = obj.category := by
  obtain ⟨⟨e, hnumbered⟩, hseen⟩ := fusedAfter_tracking cfg start (c :: h)
  obtain ⟨-, -, ⟨hnone, -⟩ | ⟨dt, hsome, htracker⟩⟩ :=
    timerCallback_cases cfg c (fusedAfter cfg start h)
  · rw [published, hnone] at hpub
    cases hpub
  rw [← fusedAfter_cons] at htracker
  -- the message reports the tracks that are left
  have hobjects : objects = ((fusedAfter cfg start (c :: h)).tracker.tracks.map
      InternalTrack.report).map TrackedObject.toMessage := by
    rw [published, hsome] at hpub
    rw [htracker]
    exact (Option.some.inj hpub).symm
  rw [hobjects]
  refine ⟨?_, ?_, fun obj hobj => ?_⟩
  · simp only [List.map_map]
    have hnodup := hnumbered.nodup.map (f := fun id : Int => "trk_" ++ toString id)
      fun _ _ => toMessage_id_injective
    rwa [List.map_map] at hnodup
  · rw [List.length_map, List.length_map]
    exact Int.ofNat_le.mp hnumbered.length_le
  · obtain ⟨_, hreport, rfl⟩ := List.mem_map.mp hobj
    obtain ⟨track, htrack, rfl⟩ := List.mem_map.mp hreport
    obtain ⟨k, hmiss, ds, hds, det, hdet, hcategory⟩ := hseen track htrack
    rw [detectionsOf, List.getElem?_map] at hds
    obtain ⟨p, hp, rfl⟩ := Option.map_eq_some_iff.mp hds
    obtain ⟨hsuffix, c', h', rfl, hpub'⟩ := mem_publications (List.mem_of_getElem? hp)
    refine ⟨k, ?_, c', h', hp, hsuffix, published_trusted hpub' hdet, det, hdet, hcategory⟩
    have hparams := hnumbered.params_eq
    rw [htracker] at htrack hparams
    have hle := MultiObjectTracker.missCount_update_le htrack
    rw [hparams, hmiss] at hle
    exact Int.ofNat_le.mp hle

/-! ## An object that is not seen any more

Three callbacks: nothing is read, then six echoes, then a scan without any. The object of the
second is published at the third, from the prediction alone. -/

namespace MultiObjectTracker

variable {t : MultiObjectTracker K} {i : Frame K}

/-- The first detections all start a track, as far as there is room for one. -/
theorem update_of_no_tracks (htracks : t.tracks = []) (hmissed : 0 ≤ t.params.maxMissedFrames) :
    (t.update i).2.tracks = newTracks i t.nextId
      ((List.range i.detections.length).take t.params.maxTracks.toNat) := by
  have hassoc : t.association i = ⟨[], [], fun _ => false⟩ := by
    simp [association, predicted, htracks, associate]
  have hgrown : (t.grown i).1 = newTracks i t.nextId
      ((List.range i.detections.length).take t.params.maxTracks.toNat) := by
    simp [grown_eq, started, left, hassoc]
  simp only [update, hgrown]
  refine List.filter_eq_self.mpr fun track htrack => ?_
  rw [decide_eq_true_eq, Stale, missCount_newTracks htrack]
  exact not_lt.mpr hmissed

/-- Without detections all tracks are missed, and kept while that is forgiven. -/
theorem update_of_no_detections (hdets : i.detections = [])
    (hmissed : ∀ track ∈ t.tracks, track.missCount < t.params.maxMissedFrames) :
    (t.update i).2.tracks = t.predicted i := by
  have hnone : ∀ (tracks : List (InternalTrack K)) detMatched,
      (associate t.params.associationRadius [] tracks detMatched).tracks = tracks := by
    intro tracks detMatched
    induction tracks with
    | nil => rfl
    | cons track tracks ih =>
      rw [show _ = _ from congrArg Association.tracks (associate_cons_of_none tracks rfl)]
      exact congrArg (track :: ·) ih
  have hgrown : (t.grown i).1 = t.predicted i := by
    rw [grown, association, hdets]
    simp [spawn, hnone]
  simp only [update, hgrown]
  refine List.filter_eq_self.mpr fun track htrack => ?_
  obtain ⟨old, hold, rfl⟩ := List.mem_map.mp htrack
  rw [decide_eq_true_eq, Stale]
  have hlt := hmissed old hold
  dsimp only
  omega

end MultiObjectTracker

/-- Six beams without an echo. -/
def silentScan : LidarScan ℝ where
  ranges := List.replicate 6 none
  size_le := by decide
  angleMin := 0
  angleIncrement := 0

/-- Nothing was read at the first callback, six echoes at the second and nothing at the third. -/
noncomputable def fading : List (Callback ℝ) :=
  [fusionCallback 1400000000 (some silentScan), fusionCallback 1200000000 (some nearScan),
    fusionCallback 1000000000 none]

theorem perception_fading :
    (fusionAfter {} 0 fading.tail.tail).perception = {} ∧
      (fusionAfter {} 0 fading.tail).perception =
        tick ((fusionCallback 1200000000 (some nearScan)).tickInput
          (gap 0 (fusionCallback 1200000000 (some nearScan)) fading.tail.tail)) {} ∧
      (fusionAfter {} 0 fading).perception =
        tick ((fusionCallback 1400000000 (some silentScan)).tickInput
          (gap 0 (fusionCallback 1400000000 (some silentScan)) fading.tail))
          (fusionAfter {} 0 fading.tail).perception := by
  have hfirst : (fusionAfter {} 0 fading.tail.tail).perception = {} := by
    refine (perception_fusionAfter_cons {} 0 _ []).trans (if_neg ?_)
    exact fun hticks => absurd hticks.1 (by decide)
  refine ⟨hfirst, ?_, ?_⟩
  · rw [← hfirst]
    refine (perception_fusionAfter_cons {} 0 _ fading.tail.tail).trans (if_pos ?_)
    norm_num [Ticks, Accepted, seconds, lastNs, fusionCallback, fading]
  · refine (perception_fusionAfter_cons {} 0 _ fading.tail).trans (if_pos ?_)
    norm_num [Ticks, Accepted, seconds, lastNs, fusionCallback, fading]

/-- The scans have no stamp, and are taken as new. -/
theorem published_fading {c : Callback ℝ} {h : List (Callback ℝ)}
    (hstamp : (fusionAfter {} 0 (c :: h)).perception.lidarStampNs = 0) (hnow : c.nowNs ≠ 0) :
    (published {} 0 (c :: h)).isSome = true := by
  have hsnapshot : (fusionAfter {} 0 (c :: h)).perception.snapshotStampNs = 0 := by
    rw [PerceptionService.snapshotStampNs, hstamp, ite_self]
  refine published_isSome_iff.mpr ?_
  rw [FusionConfig.gateStampNs, if_pos hsnapshot]
  simpa using hnow

/-- Without a point in the buffer nothing is fused. -/
theorem fuse_eq_nil {s : PerceptionService ℝ} (hdepth : s.depthClusters = [])
    (hnone : ∀ i r, s.lidarRanges i = some r → ¬ ({} : ClusterParams ℝ).Valid r)
    (level : DegradationLevel) : s.fuse {} level = [] := by
  have hdetect : ({} : ClusterParams ℝ).detect s.lidarRanges s.lidarAngleMin s.lidarAngleInc = [] :=
    detect_eq_nil hnone
  cases level <;> simp [PerceptionService.fuse, merge, hdepth, hdetect]

theorem fused_fading :
    ({} : FusionConfig ℝ).fused (fusionAfter {} 0 fading.tail.tail) = [] ∧
      ({} : FusionConfig ℝ).fused (fusionAfter {} 0 fading.tail) ≠ [] ∧
      ({} : FusionConfig ℝ).fused (fusionAfter {} 0 fading) = [] := by
  obtain ⟨hfirst, hsecond, hthird⟩ := perception_fading
  refine ⟨?_, ?_, ?_⟩
  · rw [FusionConfig.fused, hfirst]
    refine fuse_eq_nil rfl (fun i r hr => ?_) _
    obtain rfl := Option.some.inj hr
    exact not_valid_zero
  · have hlevel : (fusionAfter {} 0 fading.tail).currentLevel = .full := by
      refine (currentLevel_fusionAfter {} 0 _ fading.tail.tail).trans ?_
      change (fusionAfter {} 0 fading.tail).perception.evaluateDegradation {} = _
      rw [hsecond]
      norm_num [PerceptionService.evaluateDegradation, DegradationConfig.evaluate, IsStale, tick,
        Callback.tickInput, fusionCallback, TickInput.scan]
    rw [FusionConfig.fused, hlevel, hsecond]
    refine (fuse_full_of_no_depth rfl (by decide)).trans_ne ?_
    refine detect_ne_nil (r := 0.12) [0, 1, 2, 3, 4, 5] (by constructor <;> norm_num)
      (by decide +kernel) ?_ (by simp) (by simp) ?_
    · intro i hi
      fin_cases hi <;> rfl
    · intro i r' hr' hvalid
      rw [(tick_scan _ _).1] at hr'
      obtain hnone | ⟨r, hr⟩ := (nearScan.ranges[i]?).eq_none_or_eq_some
      · have hzero : r' = 0.0 := by
          simpa [Callback.tickInput, fusionCallback, TickInput.scan, copyRanges, hnone, eq_comm]
            using hr'
        rw [hzero] at hvalid
        exact absurd hvalid not_valid_zero
      · obtain rfl : r = some 0.12 := List.eq_of_mem_replicate (List.mem_of_getElem? hr)
        simpa [Callback.tickInput, fusionCallback, TickInput.scan, copyRanges, hr, eq_comm]
          using hr'
  · rw [FusionConfig.fused, hthird]
    refine fuse_eq_nil rfl (fun i r hr => ?_) _
    rw [hsecond, (tick_scan _ _).1, (tick_scan _ _).1] at hr
    have hlengths : silentScan.ranges.length = 6 ∧ nearScan.ranges.length = 6 := ⟨rfl, by simp [nearScan]⟩
    obtain hlt | hge := Nat.lt_or_ge i 6
    · have hsilent : silentScan.ranges[i]? = some none := by
        rw [silentScan, List.getElem?_replicate, if_pos hlt]
      simp [Callback.tickInput, fusionCallback, TickInput.scan, copyRanges, hsilent] at hr
    · have hsilent : silentScan.ranges[i]? = none :=
        List.getElem?_eq_none (hlengths.1 ▸ hge)
      have hnear : nearScan.ranges[i]? = none := List.getElem?_eq_none (hlengths.2 ▸ hge)
      have hzero : r = 0.0 := by
        simpa [Callback.tickInput, fusionCallback, TickInput.scan, copyRanges, hsilent, hnear,
          eq_comm] using hr
      rw [hzero]
      exact not_valid_zero

/-- A callback that publishes gives the tracker a frame with what was fused, and publishes its
tracks. -/
theorem tracker_of_published (hpub : (published cfg start (c :: h)).isSome = true) :
    ∃ i : Frame K, i.detections = cfg.fused (fusionAfter cfg.perception start (c :: h)) ∧
      (fusedAfter cfg start (c :: h)).tracker = ((fusedAfter cfg start h).tracker.update i).2 ∧
      published cfg start (c :: h) = some (((fusedAfter cfg start (c :: h)).tracker.tracks.map
        InternalTrack.report).map TrackedObject.toMessage) := by
  obtain ⟨-, -, ⟨hnone, -⟩ | ⟨dt, hsome, htracker⟩⟩ :=
    timerCallback_cases cfg c (fusedAfter cfg start h)
  · rw [published, hnone] at hpub
    cases hpub
  · rw [← fusedAfter_cons] at hsome htracker
    refine ⟨cfg.frame (fusedAfter cfg start (c :: h)).node dt, ?_, htracker, ?_⟩
    · rw [FusionConfig.frame, node_fusedAfter]
    · rw [published, hsome, htracker]
      rfl

/-- The track of the second callback is still there after the third. -/
theorem tracks_fading :
    (∃ objects, published {} 0 fading = some objects ∧ objects ≠ []) ∧
      (publications {} 0 fading)[0]? = some fading := by
  obtain ⟨hfirst, hsecond, hthird⟩ := perception_fading
  obtain ⟨hnothing, hseen, hsilent⟩ := fused_fading
  have hpub₁ : (published {} 0 fading.tail.tail).isSome = true :=
    published_fading (congrArg PerceptionService.lidarStampNs hfirst) (by decide)
  have hpub₂ : (published {} 0 fading.tail).isSome = true :=
    published_fading (congrArg PerceptionService.lidarStampNs hsecond) (by decide)
  have hpub₃ : (published {} 0 fading).isSome = true :=
    published_fading (congrArg PerceptionService.lidarStampNs hthird) (by decide)
  obtain ⟨i₁, hdets₁, htracker₁, -⟩ := tracker_of_published hpub₁
  obtain ⟨i₂, hdets₂, htracker₂, -⟩ := tracker_of_published hpub₂
  obtain ⟨i₃, hdets₃, htracker₃, hobjects⟩ := tracker_of_published hpub₃
  have hnone : (fusedAfter {} 0 fading.tail.tail).tracker.tracks = [] := by
    refine (congrArg MultiObjectTracker.tracks htracker₁).trans ?_
    rw [MultiObjectTracker.update_of_no_tracks rfl (by decide), hdets₁.trans hnothing]
    rfl
  have hparams : ∀ h, (fusedAfter ({} : FusionConfig ℝ) 0 h).tracker.params = {} := fun h =>
    (fusedAfter_tracking {} 0 h).numbered.choose_spec.params_eq
  have hstarted : (fusedAfter {} 0 fading.tail).tracker.tracks =
      newTracks i₂ (fusedAfter {} 0 fading.tail.tail).tracker.nextId
        ((List.range i₂.detections.length).take
          (fusedAfter ({} : FusionConfig ℝ) 0 fading.tail.tail).tracker.params.maxTracks.toNat) := by
    refine (congrArg MultiObjectTracker.tracks htracker₂).trans ?_
    exact MultiObjectTracker.update_of_no_tracks hnone (by
      change 0 ≤ (fusedAfter ({} : FusionConfig ℝ) 0 fading.tail.tail).tracker.params.maxMissedFrames
      rw [hparams]
      decide)
  have hkept : (fusedAfter {} 0 fading).tracker.tracks =
      (fusedAfter {} 0 fading.tail).tracker.predicted i₃ := by
    refine (congrArg MultiObjectTracker.tracks htracker₃).trans ?_
    refine MultiObjectTracker.update_of_no_detections (hdets₃.trans hsilent) fun track htrack => ?_
    have hmissed : track.missCount = 0 := missCount_newTracks (hstarted ▸ htrack)
    change _ < (fusedAfter ({} : FusionConfig ℝ) 0 fading.tail).tracker.params.maxMissedFrames
    rw [hmissed, hparams]
    decide
  have hpublications : publications {} 0 fading = fading :: publications {} 0 fading.tail :=
    if_pos hpub₃
  refine ⟨⟨_, hobjects, fun hempty => hseen ?_⟩, by rw [hpublications]; rfl⟩
  -- an empty message means that nothing was detected at the second callback
  have hnil : (fusedAfter {} 0 fading.tail).tracker.tracks = [] := by
    have htracks := List.map_eq_nil_iff.mp (List.map_eq_nil_iff.mp hempty)
    exact List.map_eq_nil_iff.mp (hkept.symm.trans htracks)
  rw [hstarted, hparams, newTracks, List.map_eq_nil_iff, List.zipIdx_eq_nil_iff,
    List.take_eq_nil_iff, List.range_eq_nil] at hnil
  exact hdets₂.symm.trans (List.length_eq_zero_iff.mp (hnil.resolve_left (by decide)))

/-- The object of the second callback is published at the third, which sees nothing. -/
theorem published_seen_fading :
    ∃ objects, published {} 0 fading = some objects ∧ objects ≠ [] ∧
      ({} : FusionConfig ℝ).fused (fusionAfter {} 0 fading) = [] ∧
      (objects.map DetectedObject.id).Nodup ∧ objects.length ≤ 20 ∧
      ∀ obj ∈ objects, ∃ k ≤ 5, k ≠ 0 ∧ ∃ c' h', (publications {} 0 fading)[k]? = some (c' :: h') ∧
        ∃ det ∈ ({} : FusionConfig ℝ).fused (fusionAfter {} 0 (c' :: h')),
          det.category = obj.category := by
  obtain ⟨⟨objects, hobjects, hne⟩, hnewest⟩ := tracks_fading
  obtain ⟨-, -, hsilent⟩ := fused_fading
  obtain ⟨hnodup, hlength, hseen⟩ := published_seen {} 0 hobjects
  refine ⟨objects, hobjects, hne, hsilent, hnodup, hlength, fun obj hobj => ?_⟩
  obtain ⟨k, hk, c', h', hat, -, -, det, hdet, hcategory⟩ := hseen obj hobj
  refine ⟨k, hk, ?_, c', h', hat, det, hdet, hcategory⟩
  rintro rfl
  rw [show publications {} 0 (_ :: _) = publications {} 0 fading from rfl, hnewest] at hat
  rw [← Option.some.inj hat] at hdet
  rw [show FusionConfig.perception {} = {} from rfl, hsilent] at hdet
  cases hdet

end AmrFramework.Perception
