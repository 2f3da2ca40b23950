import AmrFramework.ClusterDetector
import AmrFramework.GreedyMatching
import AmrFramework.KalmanFilter
import AmrFramework.RunningBest

/-!
# The tracker

`MultiObjectTracker` keeps a filter for every object. In each frame it predicts all
of them, gives every track the detection that is closest to it among those that are
left, starts new tracks for the rest while there is room, and drops the tracks that
were missed too often.

`association` is a greedy matching (`association_maximal`), and tracks are started
for the detections it leaves over, in order, up to `max_tracks` (`grown_eq`). Tracks are
dropped after that, so a detection can be lost in a frame that ends with room for it.

The loops of the source are read twice. First as they stand: `Closest.look` is one round of the
inner loop, `associate` the outer one, `spawn` the loop that starts tracks. Then as what they
compute: the inner loop finds the best of a list (`Closest.best_foldl`), the outer one is the
greedy matching of the library with that choice (`associate_eq`), and the third is a `take` of
the detections that are left (`spawn_eq`). Every later result about the tracker is proved from
the second reading only.
-/

namespace AmrFramework.Perception

universe u

variable {K : Type u} [Field K]

/-- What `update` reports of a track. The number is what tells the objects apart from frame to
frame. -/
structure TrackedObject (K : Type u) : Type u where
  x : K
  y : K
  vx : K
  vy : K
  trackId : Int
  /-- frames since creation -/
  age : Int
  /-- consecutive frames without a detection -/
  missCount : Int
  category : String

structure TrackerParams (K : Type u) [Field K] : Type u where
  /-- maximal distance of a detection from its track -/
  associationRadius : K := 0.5
  maxMissedFrames : Int := 5
  maxTracks : Int := 20

structure InternalTrack (K : Type u) [Field K] : Type u where
  kf : KalmanFilter2D K := .reset
  id : Int := 0
  age : Int := 0
  missCount : Int := 0
  category : String := ""

/-- The data members. `nextId` is the number of the next track, and never falls. -/
structure MultiObjectTracker (K : Type u) [Field K] : Type u where
  params : TrackerParams K := {}
  tracks : List (InternalTrack K) := []
  nextId : Int := 0

/-- The arguments of `update`. -/
structure Frame (K : Type u) [Field K] : Type u where
  detections : List (Cluster K)
  dt : K := 0.2
  ax : K := 0
  ay : K := 0

/-- `detections[d]`. Only indices of detections are looked up. -/
def Frame.det (i : Frame K) (d : Nat) : Cluster K := i.detections.getD d {}

/-- The filter's position as a measurement. -/
def Cluster.position (det : Cluster K) : Fin 2 → K := ![det.x, det.y]

/-- The noise of `update(zx, zy)`: the same in both directions. -/
def defaultNoise : Fin 2 → K := ![0.1, 0.1]

variable [LinearOrder K] [CMath K]

/-! ## Association

As in the source, the tracks choose one after another, in the order in which they were started,
and a detection that is taken is not offered to a later track. Which matching comes out therefore
depends on that order; that nothing in reach is left over on both sides does not. -/

/-- The distance of a detection from a track. -/
def InternalTrack.dist (t : InternalTrack K) (det : Cluster K) : K :=
  let dx := t.kf.state 0 - det.x
  let dy := t.kf.state 1 - det.y
  CMath.sqrt (dx * dx + dy * dy)

/-- The closest detection so far. -/
structure Closest (K : Type u) : Type u where
  bestDist : K
  bestDet : Option Nat

/-- One detection and its index: it replaces the best so far if it is left and strictly closer. -/
def Closest.look (t : InternalTrack K) (detMatched : Nat → Bool) (best : Closest K)
    (det : Cluster K × Nat) : Closest K :=
  if detMatched det.2 = true then best
  else if t.dist det.1 < best.bestDist then ⟨t.dist det.1, some det.2⟩
  else best

/-- The closest detection that is left, if one is within the radius. Of two at the same distance
the first one wins. -/
def closest (radius : K) (dets : List (Cluster K)) (t : InternalTrack K) (detMatched : Nat → Bool) :
    Option Nat :=
  (dets.zipIdx.foldl (Closest.look t detMatched) ⟨radius, none⟩).bestDet

/-- A track takes a detection. What its filter says of it is not looked at, so the track counts
as matched even if the filter refuses the position. -/
def InternalTrack.take (t : InternalTrack K) (det : Cluster K) : InternalTrack K :=
  { t with
    kf := (t.kf.update .linear det.position defaultNoise).2
    category := det.category
    missCount := 0
    age := t.age + 1 }

/-- What the association leaves: the tracks with their filters updated, and who was matched with
what. -/
structure Association (K : Type u) [Field K] : Type u where
  tracks : List (InternalTrack K)
  /-- the detection of every track, if it has one -/
  trkMatched : List (Option Nat)
  detMatched : Nat → Bool

/-- Greedy nearest-neighbour association: the tracks choose in their order, each from what the
ones before have left. -/
def associate (radius : K) (dets : List (Cluster K)) :
    List (InternalTrack K) → (Nat → Bool) → Association K
  | [], detMatched => ⟨[], [], detMatched⟩
  | t :: tracks, detMatched =>
    match closest radius dets t detMatched with
    | none =>
      let rest := associate radius dets tracks detMatched
      ⟨t :: rest.tracks, none :: rest.trkMatched, rest.detMatched⟩
    | some d =>
      let rest := associate radius dets tracks (Function.update detMatched d true)
      ⟨t.take (dets.getD d {}) :: rest.tracks, some d :: rest.trkMatched, rest.detMatched⟩

/-! ## Tracks come and go

`spawn` stops at the first detection for which there is no room, `update` drops the stale tracks
only after that. The two in this order are what makes a full tracker lose detections. -/

/-- The track of a detection that no track took: a new filter, put where the detection is. -/
def spawnTrack (id : Int) (det : Cluster K) : InternalTrack K where
  kf := ((KalmanFilter2D.reset.predict 0.01 0 0).update .linear det.position defaultNoise).2
  id := id
  age := 1
  missCount := 0
  category := det.category

/-- New tracks for the detections that are left, while there is room. Detections without room are
forgotten. -/
def spawn (maxTracks : Int) (detMatched : Nat → Bool) :
    List (Cluster K × Nat) → List (InternalTrack K) → Int → List (InternalTrack K) × Int
  | [], tracks, nextId => (tracks, nextId)
  | (det, d) :: dets, tracks, nextId =>
    if detMatched d = true then spawn maxTracks detMatched dets tracks nextId
    else if maxTracks ≤ tracks.length then (tracks, nextId)
    else spawn maxTracks detMatched dets (tracks ++ [spawnTrack nextId det]) (nextId + 1)

def InternalTrack.report (t : InternalTrack K) : TrackedObject K where
  x := t.kf.state 0
  y := t.kf.state 1
  vx := t.kf.state 2
  vy := t.kf.state 3
  trackId := t.id
  age := t.age
  missCount := t.missCount
  category := t.category

namespace MultiObjectTracker

variable (t : MultiObjectTracker K) (i : Frame K)

/-- All tracks, one frame on and not matched: each counts a miss until it takes a detection. -/
def predicted : List (InternalTrack K) :=
  t.tracks.map fun track =>
    { track with kf := track.kf.predict i.dt i.ax i.ay, missCount := track.missCount + 1 }

def association : Association K :=
  associate t.params.associationRadius i.detections (t.predicted i) fun _ => false

/-- The tracks and the next number before the stale tracks are dropped. This is the state between
step 3 and step 4 of the source; most invariants are proved of it first, and `update` only
filters it. -/
def grown : List (InternalTrack K) × Int :=
  spawn t.params.maxTracks (t.association i).detMatched i.detections.zipIdx
    (t.association i).tracks t.nextId

/-- A track that was missed too often, to be dropped at the end of the frame. -/
def Stale (track : InternalTrack K) : Prop := track.missCount > t.params.maxMissedFrames

instance (track : InternalTrack K) : Decidable (t.Stale track) :=
  inferInstanceAs (Decidable (_ > _))

def update : List (TrackedObject K) × MultiObjectTracker K :=
  let tracks := (t.grown i).1.filter fun track => ¬t.Stale track
  (tracks.map InternalTrack.report, { t with tracks := tracks, nextId := (t.grown i).2 })

def reset : MultiObjectTracker K := { t with tracks := [], nextId := 0 }

end MultiObjectTracker

/-! ## The closest detection

The inner loop keeps a running best that starts at the radius itself, so that "nothing found" and
"nothing within the radius" are one case. -/

section Closest

variable {radius : K} {dets : List (Cluster K)} {t : InternalTrack K} {detMatched : Nat → Bool}

def Closest.view (best : Closest K) : K × Option Nat := (best.bestDist, best.bestDet)

theorem Closest.view_look (best : Closest K) (det : Cluster K × Nat) :
    RunningBest.look (fun det => detMatched det.2 = false) (fun det => t.dist det.1) Prod.snd
      best.view det = (best.look t detMatched det).view := by
  simp only [RunningBest.look, Closest.look, Closest.view]
  split_ifs <;> grind

/-- The loop finds the closest of the detections that are left. The radius is the bound, and not
within it means not found. -/
theorem Closest.best_foldl (l : List (Cluster K × Nat)) :
    RunningBest.Best (fun det => detMatched det.2 = false) (fun det => t.dist det.1) Prod.snd radius
      l (l.foldl (Closest.look t detMatched) ⟨radius, none⟩).view := by
  have hview : l.foldl (RunningBest.look (fun det => detMatched det.2 = false)
      (fun det => t.dist det.1) Prod.snd) (Closest.view ⟨radius, none⟩) =
        (l.foldl (Closest.look t detMatched) ⟨radius, none⟩).view :=
    List.foldl_hom Closest.view Closest.view_look
  exact hview ▸ RunningBest.best_foldl _ _ _ radius l

/-- A detection in reach of a track: nearer than the radius, after the prediction. -/
def InReach (radius : K) (dets : List (Cluster K)) (t : InternalTrack K) (d : Nat) : Prop :=
  d < dets.length ∧ t.dist (dets.getD d {}) < radius

/-- A track takes a detection in reach that is left, while there is one. That is all that the
theory of greedy matchings asks. -/
theorem closest_picks (radius : K) (dets : List (Cluster K)) :
    GreedyMatching.Picks (closest radius dets) (InReach radius dets) := by
  have hmem : ∀ {det d}, (det, d) ∈ dets.zipIdx ↔ d < dets.length ∧ dets.getD d {} = det := by
    intro det d
    rw [List.mk_mem_zipIdx_iff_getElem?, List.getD_eq_getElem?_getD]
    constructor
    · intro hget
      exact ⟨(List.getElem?_eq_some_iff.mp hget).1, by rw [hget]; rfl⟩
    · rintro ⟨hd, rfl⟩
      rw [List.getElem?_eq_getElem hd]
      rfl
  refine ⟨fun {t detMatched d} hsome => ?_, fun {t detMatched} hnone d hd hreach => ?_⟩
  · obtain ⟨⟨det, d'⟩, hdet, hfree, rfl, -, hdist⟩ :=
      (Closest.best_foldl dets.zipIdx).found d hsome
    obtain ⟨hlt, rfl⟩ := hmem.mp hdet
    exact ⟨hfree, hlt, hdist⟩
  · have hle : radius ≤ t.dist (dets.getD d {}) := by
      rw [← (Closest.best_foldl dets.zipIdx).missing hnone]
      exact (Closest.best_foldl dets.zipIdx).least (_, d) (hmem.mpr ⟨hreach.1, rfl⟩) hd
    exact absurd hreach.2 (not_lt.mpr hle)

end Closest

/-! ## What a frame does

From here on a frame is described by three lists: the tracks with the detection that each took
(`pairs`), the detections that nobody took (`left`), and those of them that started a track
(`started`). -/

/-- A track after the association: as it was predicted, or with its detection taken in. -/
def InternalTrack.after (i : Frame K) (track : InternalTrack K) : Option Nat → InternalTrack K
  | none => track
  | some d => track.take (i.det d)

/-- The two equations of the loop: a track that finds nothing is passed over, -/
theorem associate_cons_of_none {radius : K} {dets : List (Cluster K)} {track : InternalTrack K}
    {detMatched : Nat → Bool} (tracks : List (InternalTrack K))
    (h : closest radius dets track detMatched = none) :
    associate radius dets (track :: tracks) detMatched =
      let rest := associate radius dets tracks detMatched
      ⟨track :: rest.tracks, none :: rest.trkMatched, rest.detMatched⟩ := by
  rw [associate, h]

/-- and one that finds a detection takes it away from those after it. -/
theorem associate_cons_of_some {radius : K} {dets : List (Cluster K)} {track : InternalTrack K}
    {detMatched : Nat → Bool} {d : Nat} (tracks : List (InternalTrack K))
    (h : closest radius dets track detMatched = some d) :
    associate radius dets (track :: tracks) detMatched =
      let rest := associate radius dets tracks (Function.update detMatched d true)
      ⟨track.take (dets.getD d {}) :: rest.tracks, some d :: rest.trkMatched, rest.detMatched⟩ := by
  rw [associate, h]

/-- The association is the greedy matching, and matched tracks take their detection. By induction
on the tracks. -/
theorem associate_eq (radius : K) (i : Frame K) (tracks : List (InternalTrack K))
    (detMatched : Nat → Bool) :
    ((associate radius i.detections tracks detMatched).trkMatched,
      (associate radius i.detections tracks detMatched).detMatched) =
        GreedyMatching.run (closest radius i.detections) tracks detMatched ∧
      (associate radius i.detections tracks detMatched).tracks =
        List.zipWith (InternalTrack.after i) tracks
          (associate radius i.detections tracks detMatched).trkMatched := by
  induction tracks generalizing detMatched with
  | nil => exact ⟨rfl, rfl⟩
  | cons t tracks ih =>
    rw [associate, GreedyMatching.run]
    cases closest radius i.detections t detMatched with
    | none =>
      obtain ⟨hrun, htracks⟩ := ih detMatched
      exact ⟨by simp only [← hrun], congrArg (t :: ·) htracks⟩
    | some d =>
      obtain ⟨hrun, htracks⟩ := ih (Function.update detMatched d true)
      exact ⟨by simp only [← hrun], congrArg (t.take (i.det d) :: ·) htracks⟩

open KalmanFilter2D Matrix in
/-- A new track stands where its detection is, whatever its filter says of it. A refused
measurement writes the state, too. -/
theorem spawnTrack_state (id : Int) (det : Cluster K) :
    (spawnTrack id det).kf.state = ![det.x, det.y, 0, 0] := by
  have hpredict : (reset.predict (0.01 : K) 0 0).state = 0 := by
    funext i
    fin_cases i <;> simp [predict, reset, addUp_eq]
  rw [spawnTrack, update_of_first rfl rfl]
  simp only [MeasureModel.initFromMeasurement, Cluster.position, hpredict]
  generalize hkf : (⟨![_, _, _, _], _, _⟩ : KalmanFilter2D K) = kf
  have hstate : kf.state = ![det.x, det.y, 0, 0] := by
    rw [← hkf]
    rfl
  have hzero : ![det.x, det.y] - MeasureModel.linear.h kf.state = 0 := by
    rw [hstate]
    funext i
    fin_cases i <;> exact sub_self _
  cases haccept : (kf.correct .linear ![det.x, det.y] defaultNoise (diagonal defaultNoise)).1 with
  | false => rw [correct_of_false haccept, hstate]
  | true => rw [(correct_of_true haccept).1, hzero, mulVec_zero, add_zero, hstate]

/-- New tracks, one for each of the detections, with numbers in order. -/
def newTracks (i : Frame K) (nextId : Int) (ds : List Nat) : List (InternalTrack K) :=
  ds.zipIdx.map fun (d, j) => spawnTrack (nextId + j) (i.det d)

theorem newTracks_cons (i : Frame K) (nextId : Int) (d : Nat) (ds : List Nat) :
    newTracks i nextId (d :: ds) =
      spawnTrack nextId (i.det d) :: newTracks i (nextId + 1) ds := by
  rw [newTracks, List.zipIdx_cons', List.map_cons, List.map_map, newTracks]
  refine congrArg₂ List.cons (by simp) (List.map_congr_left fun ⟨e, j⟩ _ => ?_)
  simp only [Function.comp, Prod.map, id, Nat.cast_add, Nat.cast_one]
  rw [add_assoc, add_comm (1 : Int)]

/-- The loop that starts tracks takes the detections that are left, as far as there is room. In
closed form, with no loop in it. -/
theorem spawn_eq (maxTracks : Int) (i : Frame K) (detMatched : Nat → Bool) {ds : List Nat}
    (tracks : List (InternalTrack K)) (nextId : Int) :
    spawn maxTracks detMatched (ds.map fun d => (i.det d, d)) tracks nextId =
      let started := (ds.filter fun d => detMatched d = false).take
        (maxTracks - tracks.length).toNat
      (tracks ++ newTracks i nextId started, nextId + started.length) := by
  induction ds generalizing tracks nextId with
  | nil => simp [spawn, newTracks]
  | cons d ds ih =>
    rw [List.map_cons, spawn]
    split_ifs with hmatched hfull
    · rw [ih, List.filter_cons_of_neg (by simp [hmatched])]
    · have hzero : (maxTracks - tracks.length).toNat = 0 := by omega
      simp [hzero, newTracks]
    · have hroom : (maxTracks - tracks.length).toNat =
          (maxTracks - (tracks ++ [spawnTrack nextId (i.det d)]).length).toNat + 1 := by
        rw [List.length_append, List.length_singleton]
        omega
      rw [ih, List.filter_cons_of_pos (by simpa using hmatched), hroom, List.take_succ_cons]
      dsimp only
      refine Prod.ext ?_ ?_
      · rw [newTracks_cons, List.append_assoc, List.singleton_append]
      · rw [List.length_cons, Nat.cast_succ, add_assoc, add_comm (1 : Int)]

omit [LinearOrder K] [CMath K] in
theorem Frame.zipIdx_detections (i : Frame K) :
    i.detections.zipIdx = (List.range i.detections.length).map fun d => (i.det d, d) := by
  refine List.ext_getElem (by simp) fun d hd _ => ?_
  have hlt : d < i.detections.length := by simpa using hd
  simp [Frame.det, hlt]

namespace MultiObjectTracker

variable (t : MultiObjectTracker K) (i : Frame K)

/-- The detections that no track took. -/
def left : List Nat :=
  (List.range i.detections.length).filter fun d => (t.association i).detMatched d = false

/-- The detections that start a track. -/
def started : List Nat :=
  (t.left i).take (t.params.maxTracks - (t.association i).tracks.length).toNat

theorem grown_eq : t.grown i =
    ((t.association i).tracks ++ newTracks i t.nextId (t.started i),
      t.nextId + (t.started i).length) := by
  rw [grown, i.zipIdx_detections, spawn_eq]
  rfl

/-- **The association** is a matching of the predicted tracks that cannot be extended: no
detection is taken twice, every one that is taken is in reach, and a track and a detection that
are both left over are not in reach of each other. It comes from the library of greedy matchings,
which asks of the choice only that it takes something in reach while there is something. -/
theorem association_maximal :
    GreedyMatching.Maximal (InReach t.params.associationRadius i.detections) (t.predicted i)
      (fun _ => false) ((t.association i).trkMatched, (t.association i).detMatched) := by
  rw [association, (associate_eq _ i _ _).1]
  exact GreedyMatching.run_maximal (closest_picks _ i.detections) _ _

theorem association_tracks : (t.association i).tracks =
    List.zipWith (InternalTrack.after i) (t.predicted i) (t.association i).trkMatched :=
  (associate_eq _ i _ _).2

/-- The tracks and the detection of each. -/
def pairs : List (InternalTrack K × Option Nat) := t.tracks.zip (t.association i).trkMatched

theorem fst_pairs : (t.pairs i).map Prod.fst = t.tracks := by
  refine List.map_fst_zip (le_of_eq ?_)
  rw [(t.association_maximal i).length, predicted, List.length_map]

/-- A track at the end of the association. -/
def associated (p : InternalTrack K × Option Nat) : InternalTrack K :=
  InternalTrack.after i
    { p.1 with kf := p.1.kf.predict i.dt i.ax i.ay, missCount := p.1.missCount + 1 } p.2

theorem association_eq_map : (t.association i).tracks = (t.pairs i).map (associated i) := by
  rw [association_tracks, predicted, List.zipWith_map_left]
  exact (List.map_zip_eq_zipWith (f := associated i)).symm

/-- A track before the old ones are dropped: one that was there, with or without a detection, or
a new one. -/
theorem mem_grown {track : InternalTrack K} (h : track ∈ (t.grown i).1) :
    (∃ p ∈ t.pairs i, associated i p = track) ∨
      ∃ d ∈ t.started i, ∃ id, spawnTrack id (i.det d) = track := by
  rw [grown_eq, association_eq_map] at h
  rcases List.mem_append.mp h with hold | hnew
  · exact .inl (List.mem_map.mp hold)
  · obtain ⟨⟨d, j⟩, hd, htrack⟩ := List.mem_map.mp hnew
    exact .inr ⟨d, List.fst_mem_of_mem_zipIdx hd, _, htrack⟩

/-- The tracks in the pairs are those of the tracker, before the prediction. -/
theorem mem_pairs {track : InternalTrack K} {m : Option Nat} (h : (track, m) ∈ t.pairs i) :
    track ∈ t.tracks := by
  rw [← fst_pairs t i]
  exact List.mem_map_of_mem (f := Prod.fst) h

/-- A detection is in reach of the track that took it. -/
theorem reach_of_mem_pairs {track : InternalTrack K} {d : Nat} (h : (track, some d) ∈ t.pairs i) :
    InReach t.params.associationRadius i.detections
      { track with kf := track.kf.predict i.dt i.ax i.ay, missCount := track.missCount + 1 } d := by
  obtain ⟨j, hj⟩ := List.mem_iff_getElem?.mp h
  obtain ⟨htrack, hd⟩ := List.getElem?_zip_eq_some.mp hj
  refine (t.association_maximal i).reach j _ d ?_ hd
  rw [predicted, List.getElem?_map, htrack]
  rfl

/-- Only indices of detections are started. -/
theorem lt_of_mem_started {d : Nat} (h : d ∈ t.started i) : d < i.detections.length :=
  List.mem_range.mp (List.mem_of_mem_filter (List.mem_of_mem_take h))

/-- **A frame**: the tracks are matched with the detections, and the detections that are left
start new tracks while there is room. The parts are `association_maximal`, `association_tracks`
and `grown_eq`; the statement puts them side by side, since it is their order that the source
fixes. -/
theorem update_matching :
    GreedyMatching.Maximal (InReach t.params.associationRadius i.detections) (t.predicted i)
        (fun _ => false) ((t.association i).trkMatched, (t.association i).detMatched) ∧
      (t.association i).tracks =
        List.zipWith (InternalTrack.after i) (t.predicted i) (t.association i).trkMatched ∧
      (t.grown i).1 = (t.association i).tracks ++ newTracks i t.nextId
        (((List.range i.detections.length).filter fun d =>
          (t.association i).detMatched d = false).take
            (t.params.maxTracks - t.tracks.length).toNat) := by
  have hlength : (t.association i).tracks.length = t.tracks.length := by
    rw [association_tracks, List.length_zipWith, (t.association_maximal i).length, min_self,
      predicted, List.length_map]
  refine ⟨t.association_maximal i, t.association_tracks i, ?_⟩
  rw [grown_eq, started, hlength]
  rfl

/-! ## Room

Tracks are counted at the end of the loop that starts them, before the stale ones go. If there
was room even then, the `take` of `started` took everything. -/

/-- A detection that is not left was taken. -/
theorem mem_trkMatched_of_not_left {d : Nat} (hd : d < i.detections.length)
    (hleft : d ∉ t.left i) : some d ∈ (t.association i).trkMatched := by
  rcases ((t.association_maximal i).taken_iff d).mp (by simpa [left, hd] using hleft) with h | h
  · cases h
  · exact h

/-- With room at the end of the loop, every detection that was left started a track. -/
theorem started_eq_left (hroom : ((t.grown i).1.length : Int) < t.params.maxTracks) :
    t.started i = t.left i := by
  rw [started]
  refine List.take_of_length_le (not_lt.mp fun hlt => ?_)
  have hlength : (t.started i).length =
      (t.params.maxTracks - (t.association i).tracks.length).toNat :=
    List.length_take_of_le hlt.le
  rw [grown_eq, List.length_append, newTracks, List.length_map, List.length_zipIdx,
    hlength] at hroom
  omega

/-- What is kept and what is dropped add up to what there was. -/
theorem length_grown : (t.grown i).1.length =
    (t.update i).2.tracks.length + ((t.grown i).1.filter fun track => t.Stale track).length := by
  rw [List.length_eq_length_filter_add (fun track => decide (¬t.Stale track))]
  simp [update]

/-- **No detection is dropped while there is room** for the tracks of the frame, those that it
drops at its end included. A tracker that is full of stale tracks is not such a case: it drops
the detection first and the tracks afterwards, and has room again from the next frame on. -/
theorem no_detection_dropped
    (hroom : ((t.update i).2.tracks.length +
      ((t.grown i).1.filter fun track => t.Stale track).length : Int) < t.params.maxTracks) :
    ∃ started : List Nat,
      (t.grown i).1 = (t.association i).tracks ++ newTracks i t.nextId started ∧
      ∀ d < i.detections.length, some d ∈ (t.association i).trkMatched ∨ d ∈ started := by
  have hgrown : ((t.grown i).1.length : Int) < t.params.maxTracks := by
    rw [length_grown]
    exact_mod_cast hroom
  refine ⟨t.started i, by rw [grown_eq], fun d hd => ?_⟩
  rw [started_eq_left t i hgrown]
  exact or_iff_not_imp_right.mpr (t.mem_trkMatched_of_not_left i hd)

/-! ## Objects that stand still

The filters of the runs below never move: a track that is started at a point and sees nothing, or
only that point, has this point for its state, so the distances can be computed. -/

/-- The only detection of a frame is at `x`. -/
noncomputable def onlyAt (x : ℝ) : Frame ℝ where
  detections := [{ x := x }]

/-- A track that stands still at `x`. -/
def Still (x : ℝ) (track : InternalTrack ℝ) : Prop := track.kf.state = ![x, 0, 0, 0]

theorem still_spawnTrack (id : Int) (x : ℝ) : Still x (spawnTrack id { x := x }) :=
  spawnTrack_state id _

/-- It stays where it is. -/
theorem Still.predict {x : ℝ} {track : InternalTrack ℝ} (h : Still x track) (missCount : Int) :
    Still x { track with kf := track.kf.predict 0.2 0 0, missCount := missCount } := by
  have hstate : track.kf.state = ![x, 0, 0, 0] := h
  refine funext fun i => ?_
  fin_cases i <;>
    simp [KalmanFilter2D.predict, KalmanFilter2D.motion, hstate, addUp_eq, Fin.sum_univ_four]

/-- It takes a detection that is left and within the radius. -/
theorem Still.closest_eq {x y r : ℝ} {track : InternalTrack ℝ} (h : Still x track)
    (detMatched : Nat → Bool) :
    closest r (onlyAt y).detections track detMatched =
      if detMatched 0 = false ∧ |x - y| < r then some 0 else none := by
  have hstate : track.kf.state = ![x, 0, 0, 0] := h
  have hdist : track.dist { x := y } = |x - y| := by
    rw [InternalTrack.dist, hstate, CMath.sqrt_real, ← Real.sqrt_sq_eq_abs]
    congr 1
    simp
    ring
  simp only [closest, onlyAt, List.zipIdx_cons, List.zipIdx_nil, List.foldl_cons,
    List.foldl_nil, Closest.look, hdist]
  split_ifs <;> simp_all

/-- A tracker that has seen one object, at the origin. -/
noncomputable def seenOnce (params : TrackerParams ℝ) : MultiObjectTracker ℝ where
  params := params
  tracks := [spawnTrack 0 { x := 0 }]
  nextId := 1

theorem update_onlyAt_zero {params : TrackerParams ℝ} (hmax : 0 < params.maxTracks)
    (hmissed : 0 ≤ params.maxMissedFrames) :
    (({ params := params } : MultiObjectTracker ℝ).update (onlyAt 0)).2 = seenOnce params := by
  have hroom : ¬ params.maxTracks ≤ 0 := not_le.mpr hmax
  simp [update, grown, association, predicted, associate, spawn, Stale, spawnTrack, seenOnce,
    onlyAt, hroom, hmissed]

/-- Its track is too far away to take a detection at 10 m. -/
theorem association_seenOnce {params : TrackerParams ℝ} (hradius : params.associationRadius ≤ 10) :
    (seenOnce params).association (onlyAt 10) =
      ⟨(seenOnce params).predicted (onlyAt 10), [none], fun _ => false⟩ := by
  have hfar : ¬ ((fun _ : Nat => false) 0 = false ∧ |(0 : ℝ) - 10| < params.associationRadius) := by
    rw [zero_sub, abs_neg, abs_of_pos (by norm_num)]
    exact fun h => absurd h.2 (not_lt.mpr hradius)
  have hclosest := ((still_spawnTrack 0 0).predict 1).closest_eq (y := 10)
    (r := params.associationRadius) fun _ => false
  rw [if_neg hfar] at hclosest
  exact associate_cons_of_none [] hclosest

/-- The track is dropped for a miss, and the detection has started another one. -/
theorem no_detection_dropped_pruned :
    let t := seenOnce { maxMissedFrames := 0, maxTracks := 3 }
    (∃ track ∈ (t.grown (onlyAt 10)).1, t.Stale track) ∧
      ∃ started : List Nat,
        (t.grown (onlyAt 10)).1 =
          (t.association (onlyAt 10)).tracks ++ newTracks (onlyAt 10) t.nextId started ∧
        ∀ d < (onlyAt 10).detections.length,
          some d ∈ (t.association (onlyAt 10)).trkMatched ∨ d ∈ started := by
  intro t
  have hassoc : t.association (onlyAt 10) = _ := association_seenOnce (by norm_num)
  have hgrown : (t.grown (onlyAt 10)).1 =
      t.predicted (onlyAt 10) ++ [spawnTrack 1 ({ x := 10 } : Cluster ℝ)] := by
    rw [grown, hassoc]
    simp [onlyAt, spawn, predicted, t, seenOnce]
  refine ⟨?_, no_detection_dropped t (onlyAt 10) ?_⟩
  · rw [hgrown]
    exact ⟨_, List.mem_append_left _ (List.mem_singleton_self _), zero_lt_one⟩
  · rw [← Nat.cast_add, ← length_grown, hgrown]
    simp [predicted, t, seenOnce]

/-- A tracker with room at the end of a frame that has dropped a detection: the only track
was still there when the detection came. -/
theorem not_no_detection_dropped :
    let new : MultiObjectTracker ℝ := { params := { maxMissedFrames := 0, maxTracks := 1 } }
    let t := (new.update { detections := [{ x := 0 }] }).2
    let i : Frame ℝ := { detections := [{ x := 10 }] }
    ((t.update i).2.tracks.length : Int) < t.params.maxTracks ∧
      ¬∃ started : List Nat,
        (t.grown i).1 = (t.association i).tracks ++ newTracks i t.nextId started ∧
        ∀ d < i.detections.length, some d ∈ (t.association i).trkMatched ∨ d ∈ started := by
  intro new t i
  have ht : t = seenOnce new.params := update_onlyAt_zero (by decide) (by decide)
  have hassoc : t.association i = ⟨t.predicted i, [none], fun _ => false⟩ := by
    rw [ht]
    exact association_seenOnce (by norm_num [new])
  have hgrown : (t.grown i).1 = t.predicted i := by
    rw [grown, hassoc]
    simp [i, spawn, predicted, ht, new, seenOnce]
  refine ⟨?_, ?_⟩
  · have hnone : (t.update i).2.tracks = [] := by
      simp only [update]
      rw [hgrown]
      simp [ht, predicted, Stale, new, seenOnce, spawnTrack]
    rw [hnone, ht]
    decide
  · rintro ⟨started, hstarted, hall⟩
    rw [hgrown, hassoc] at hstarted
    have hnil : started = [] := by
      simpa [newTracks] using hstarted
    rcases hall 0 (by decide) with h | h
    · simp [hassoc] at h
    · simp [hnil] at h

end MultiObjectTracker

end AmrFramework.Perception
