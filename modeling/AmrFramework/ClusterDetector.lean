import AmrFramework.TransformScan

/-!
# Clustering

`ClusterDetector::detect` is DBSCAN on the Cartesian points of the valid
ranges. It reads `num_points` ranges, whatever the length of the scan that was
copied into the buffer.

The expansion walks a work list that grows while it is walked. It ends because
a point makes it grow only when it is first labelled.

Here the work list is the argument of a recursion, and the entries that the source appends to its
vector are appended to the list that is still to be done. The loop with the index, as it is
written, is in `ClusterExpansion`, where it is shown to end as this one does.
-/

namespace AmrFramework.Perception

universe u

variable {K : Type u}

/-- Cluster centroid, shared across all clustering backends. -/
structure Cluster (K : Type u) [Zero K] : Type u where
  x : K := 0
  y : K := 0
  z : K := 0
  pointCount : Int := 0
  id : String := ""
  category : String := ""

/-- A point of the plane, and the index of its range. Ranges without an echo give no point, so
the index is not that of the list. -/
structure Point2D (K : Type u) : Type u where
  x : K
  y : K
  sourceIdx : Nat

/-- `ClusterDetector::Params`. -/
structure ClusterParams (K : Type u) [Field K] : Type u where
  maxRange : K := 6.5
  minRange : K := 0.1
  eps : K := 0.3
  minPts : Int := 5
  maxObjects : Int := 10
  numPoints : Nat := 360

/-- What the labels `-1`, `-2` and `>= 0` stand for: a point is unvisited, or noise, or in a
cluster. A noise point may still be claimed by a cluster as a border point. -/
inductive Label : Type
  | unvisited
  | noise
  | cluster (id : Nat)
  deriving DecidableEq, Repr

variable [Field K] [LinearOrder K]

/-- The ranges that become points. -/
def ClusterParams.Valid (p : ClusterParams K) (r : K) : Prop := p.minRange < r ∧ r < p.maxRange

instance (p : ClusterParams K) (r : K) : Decidable (p.Valid r) :=
  inferInstanceAs (Decidable (_ ∧ _))

/-- Polar to Cartesian: the point of one range, if it is valid. -/
def beamPoint [CMath K] (p : ClusterParams K) (angleMin angleIncrement : K) (i : Nat) :
    Option K → Option (Point2D K)
  | some r =>
    if p.Valid r then
      let angle := angleMin + i * angleIncrement
      some ⟨r * CMath.cos angle, r * CMath.sin angle, i⟩
    else none
  | none => none

/-- The points of the first `num_points` ranges. -/
def points [CMath K] (p : ClusterParams K) (ranges : Nat → Option K) (angleMin angleIncrement : K) :
    List (Point2D K) :=
  (List.range p.numPoints).filterMap fun i => beamPoint p angleMin angleIncrement i (ranges i)

/-- Two points are within `eps` of each other. -/
def isNear (p : ClusterParams K) (pts : List (Point2D K)) (idx i : Nat) : Bool :=
  match pts[idx]?, pts[i]? with
  | some a, some b =>
    let dx := a.x - b.x
    let dy := a.y - b.y
    decide (dx * dx + dy * dy ≤ p.eps * p.eps)
  | _, _ => false

/-- The points within `eps` of a point, itself excluded. -/
def regionQuery (p : ClusterParams K) (pts : List (Point2D K)) (idx : Nat) : List Nat :=
  (List.range pts.length).filter fun i => decide (i ≠ idx) && isNear p pts idx i

/-- A noise point that a cluster reaches becomes a border point of it. -/
def claimNoise (id q : Nat) (labels : List Label) : List Label :=
  if labels[q]? = some .noise then labels.set q (.cluster id) else labels

/-- A noise point that is claimed was visited before, so as many points are unvisited as were. -/
theorem count_claimNoise (id q : Nat) (labels : List Label) :
    (claimNoise id q labels).count .unvisited = labels.count .unvisited := by
  simp only [claimNoise]
  split
  · next hnoise =>
    obtain ⟨hq, hlabel⟩ := List.getElem?_eq_some_iff.mp hnoise
    simp [List.count_set hq, hlabel]
  · rfl

/-- Labelling an unvisited point leaves one fewer. -/
theorem count_visit {id q : Nat} {labels : List Label} (h : labels[q]? = some .unvisited) :
    (labels.set q (.cluster id)).count .unvisited < labels.count .unvisited := by
  obtain ⟨hq, hlabel⟩ := List.getElem?_eq_some_iff.mp h
  have hmem : Label.unvisited ∈ labels := hlabel ▸ List.getElem_mem hq
  have hpos := List.count_pos_iff.mpr hmem
  simp [List.count_set hq, hlabel]
  omega

/-- Grow a cluster along its work list. A point that is visited for the first time adds its own
neighbours to the list, if it has enough of them; the number of points that are not visited is
what makes the recursion end. -/
def expand (p : ClusterParams K) (pts : List (Point2D K)) (id : Nat) (labels : List Label) :
    List Nat → List Label
  | [] => labels
  | q :: neighbors =>
    let claimed := claimNoise id q labels
    if claimed[q]? = some .unvisited then
      let qNeighbors := regionQuery p pts q
      expand p pts id (claimed.set q (.cluster id))
        (if p.minPts ≤ qNeighbors.length then neighbors ++ qNeighbors else neighbors)
    else
      expand p pts id claimed neighbors
  termination_by neighbors => (labels.count .unvisited, neighbors.length)
  decreasing_by
    · next hq => exact .left _ _ (count_claimNoise id q labels ▸ count_visit hq)
    · rw [count_claimNoise]
      exact .right _ (by simp)

/-- The outer loop over the points that are left, with the number of clusters so far. It stops
when there are `max_objects` of them. -/
def dbscan (p : ClusterParams K) (pts : List (Point2D K)) :
    List Nat → List Label → Nat → List Label × Nat
  | [], labels, clusterId => (labels, clusterId)
  | i :: rest, labels, clusterId =>
    if labels[i]? ≠ some .unvisited then dbscan p pts rest labels clusterId
    else
      let neighbors := regionQuery p pts i
      if (neighbors.length : Int) + 1 < p.minPts then
        dbscan p pts rest (labels.set i .noise) clusterId
      else
        let grown := expand p pts clusterId (labels.set i (.cluster clusterId)) neighbors
        if p.maxObjects ≤ (clusterId : Int) + 1 then (grown, clusterId + 1)
        else dbscan p pts rest grown (clusterId + 1)

/-- The centroid of the points with one label. -/
def centroid (pts : List (Point2D K)) (labels : List Label) (c : Nat) : Cluster K :=
  let members := ((pts.zip labels).filter fun m => decide (m.2 = .cluster c)).map Prod.fst
  if members.length = 0 then {}
  else
    { x := (members.map Point2D.x).sum / members.length
      y := (members.map Point2D.y).sum / members.length
      z := 0
      pointCount := members.length
      id := "obj_" ++ toString c }

/-- The clusters of a list of points. -/
def clustersOf (p : ClusterParams K) (pts : List (Point2D K)) : List (Cluster K) :=
  if pts.length = 0 then []
  else
    let found := dbscan p pts (List.range pts.length) (.replicate pts.length .unvisited) 0
    (List.range found.2).map (centroid pts found.1)

/-- `ClusterDetector::detect`. -/
def ClusterParams.detect [CMath K] (p : ClusterParams K) (ranges : Nat → Option K)
    (angleMin angleIncrement : K) : List (Cluster K) :=
  clustersOf p (points p ranges angleMin angleIncrement)

/-! ## What decides the result

The scan enters by its valid ranges only, so nothing that the buffer holds elsewhere can matter;
and enough echoes near the first one always make a cluster. -/

/-- A range that is not valid counts as missing. -/
theorem beamPoint_filter [CMath K] (p : ClusterParams K) (angleMin angleIncrement : K) (i : Nat)
    (r : Option K) :
    beamPoint p angleMin angleIncrement i (r.filter (p.Valid ·)) =
      beamPoint p angleMin angleIncrement i r := by
  obtain _ | r := r
  · rfl
  · rw [Option.filter_some]
    by_cases hr : p.Valid r <;> simp [beamPoint, hr]

/-- A beam has a point when its range is valid, and this is the point. -/
theorem beamPoint_eq_some_iff [CMath K] {p : ClusterParams K} {angleMin angleIncrement : K}
    {i : Nat} {range : Option K} {pt : Point2D K} :
    beamPoint p angleMin angleIncrement i range = some pt ↔
      ∃ r, range = some r ∧ p.Valid r ∧
        pt = ⟨r * CMath.cos (angleMin + i * angleIncrement),
          r * CMath.sin (angleMin + i * angleIncrement), i⟩ := by
  obtain _ | r := range
  · simp [beamPoint]
  · by_cases hr : p.Valid r <;> simp [beamPoint, hr, eq_comm]

/-- The valid ranges decide the points. -/
theorem points_congr [CMath K] {p : ClusterParams K} {ranges ranges' : Nat → Option K}
    (angleMin angleIncrement : K)
    (h : ∀ i < p.numPoints, (ranges i).filter (p.Valid ·) = (ranges' i).filter (p.Valid ·)) :
    points p ranges angleMin angleIncrement = points p ranges' angleMin angleIncrement := by
  refine List.filterMap_congr fun i hi => ?_
  rw [← beamPoint_filter, h i (List.mem_range.mp hi), beamPoint_filter]

/-- The number of clusters does not fall. -/
theorem le_dbscan (p : ClusterParams K) (pts : List (Point2D K)) (is : List Nat)
    (labels : List Label) (clusterId : Nat) :
    clusterId ≤ (dbscan p pts is labels clusterId).2 := by
  induction is generalizing labels clusterId with
  | nil => exact le_rfl
  | cons i is ih =>
    simp only [dbscan]
    split_ifs
    · exact ih _ _
    · exact ih _ _
    · exact Nat.le_succ _
    · exact (Nat.le_succ _).trans (ih _ _)

/-- A first point with enough neighbours starts a cluster. -/
theorem clustersOf_ne_nil {p : ClusterParams K} {pts : List (Point2D K)}
    (hcore : p.minPts ≤ ((regionQuery p pts 0).length : Int) + 1) (hpts : 0 < pts.length) :
    clustersOf p pts ≠ [] := by
  obtain ⟨n, hn⟩ : ∃ n, pts.length = n + 1 := ⟨pts.length - 1, by omega⟩
  have hfound : 1 ≤ (dbscan p pts (List.range pts.length)
      (.replicate pts.length .unvisited) 0).2 := by
    rw [hn, List.range_succ_eq_map, dbscan, if_neg (by simp), if_neg (not_lt.mpr hcore)]
    simp only
    split_ifs
    · exact le_rfl
    · exact le_dbscan p pts _ _ _
  intro hnil
  rw [clustersOf, if_neg hpts.ne'] at hnil
  rw [List.map_eq_nil_iff, List.range_eq_nil] at hnil
  omega

theorem isNear_of_getElem? {p : ClusterParams K} {pts : List (Point2D K)} {idx i : Nat}
    {a b : Point2D K} (ha : pts[idx]? = some a) (hb : pts[i]? = some b)
    (hle : (a.x - b.x) * (a.x - b.x) + (a.y - b.y) * (a.y - b.y) ≤ p.eps * p.eps) :
    isNear p pts idx i = true := by
  rw [isNear, ha, hb]
  exact decide_eq_true hle

/-- Points that are all within `eps` of the first are all its neighbours. -/
theorem length_regionQuery_zero {p : ClusterParams K} {pts : List (Point2D K)}
    (hnear : ∀ i < pts.length, isNear p pts 0 i = true) :
    pts.length ≤ (regionQuery p pts 0).length + 1 := by
  have hquery : regionQuery p pts 0 = (List.range pts.length).filter fun i => decide (i ≠ 0) := by
    refine List.filter_congr fun i hi => ?_
    rw [hnear i (List.mem_range.mp hi), Bool.and_true]
  rw [hquery]
  rcases hn : pts.length with _ | n
  · exact Nat.zero_le _
  · rw [List.range_succ_eq_map]
    have hall : (List.range n).filter ((fun i => !decide (i = 0)) ∘ Nat.succ) = List.range n :=
      List.filter_eq_self.mpr fun i _ => by simp
    simp [List.filter_map, hall]

/-- Enough points within `eps` of the first are never overlooked. -/
theorem clustersOf_ne_nil_of_near {p : ClusterParams K} {pts : List (Point2D K)}
    (hpts : 0 < pts.length) (henough : p.minPts ≤ pts.length)
    (hnear : ∀ i < pts.length, isNear p pts 0 i = true) : clustersOf p pts ≠ [] := by
  have hquery := length_regionQuery_zero hnear
  exact clustersOf_ne_nil (by omega) hpts

/-- Echoes that are all at one place, and enough of them, are a cluster. -/
theorem detect_ne_nil [IsStrictOrderedRing K] [CMath K] {p : ClusterParams K}
    {ranges : Nat → Option K} {angleMin r : K}
    (is : List Nat) (hvalid : p.Valid r) (hsub : is.Sublist (List.range p.numPoints))
    (his : ∀ i ∈ is, ranges i = some r) (hpos : is ≠ []) (henough : p.minPts ≤ is.length)
    (honly : ∀ i r', ranges i = some r' → p.Valid r' → r' = r) :
    p.detect ranges angleMin 0 ≠ [] := by
  have hpoint : ∀ pt ∈ points p ranges angleMin 0,
      pt.x = r * CMath.cos angleMin ∧ pt.y = r * CMath.sin angleMin := by
    intro pt hpt
    obtain ⟨i, -, hi⟩ := List.mem_filterMap.mp hpt
    obtain ⟨r', hr', hvalid', rfl⟩ := beamPoint_eq_some_iff.mp hi
    rw [honly i r' hr' hvalid', mul_zero, add_zero]
    exact ⟨rfl, rfl⟩
  have hlength : is.length ≤ (points p ranges angleMin 0).length := by
    have hall : (is.filterMap fun i => beamPoint p angleMin 0 i (ranges i)).length = is.length := by
      rw [List.length_filterMap_eq_countP, List.countP_eq_length]
      intro i hi
      rw [his i hi, beamPoint, if_pos hvalid]
      rfl
    rw [← hall]
    exact (hsub.filterMap _).length_le
  have hlen := List.length_pos_iff.mpr hpos
  refine clustersOf_ne_nil_of_near (by omega) (by omega) fun i hi => ?_
  have hfirst : 0 < (points p ranges angleMin 0).length := by omega
  refine isNear_of_getElem? (List.getElem?_eq_getElem hfirst) (List.getElem?_eq_getElem hi) ?_
  obtain ⟨hx, hy⟩ := hpoint _ (List.getElem_mem hfirst)
  obtain ⟨hx', hy'⟩ := hpoint _ (List.getElem_mem hi)
  rw [hx, hy, hx', hy', sub_self, sub_self, mul_zero, add_zero]
  exact mul_self_nonneg _

/-- Without a valid range there is no cluster. -/
theorem detect_eq_nil [CMath K] {p : ClusterParams K} {ranges : Nat → Option K}
    {angleMin angleIncrement : K} (hnone : ∀ i r, ranges i = some r → ¬ p.Valid r) :
    p.detect ranges angleMin angleIncrement = [] := by
  have hpoints : points p ranges angleMin angleIncrement = [] := by
    refine List.filterMap_eq_nil_iff.mpr fun i _ => Option.eq_none_iff_forall_ne_some.mpr ?_
    intro pt hpt
    obtain ⟨r, hr, hvalid, -⟩ := beamPoint_eq_some_iff.mp hpt
    exact hnone i r hr hvalid
  rw [ClusterParams.detect, hpoints]
  exact if_pos rfl

end AmrFramework.Perception
