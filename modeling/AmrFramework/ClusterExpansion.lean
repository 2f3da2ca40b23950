import AmrFramework.ClusterLabels

/-!
# The expansion of the clusters

The loops of `ClusterDetector::detect` as they are written, with a bound on the number of
passes: the inner one walks a vector by its index and appends to it on the way. They also
keep a log of the region queries and of the points that join a cluster.

With enough passes the loops end as `dbscan` does (`dbscanLoop_ends`). No point is queried
twice, and none joins two clusters, so what `detect` returns are the clusters the points
have joined (`detect_wellFormed`).

The log is not in the source. It is there to say, of loops that only overwrite labels, that each
point is looked at once: a query or a join that is made twice would be in the log twice.
-/

namespace AmrFramework.Perception

universe u

variable {K : Type u} [Field K] [LinearOrder K]

/-- The labels, and what happened on the way, newest first. The source keeps the labels alone;
the queries and the joins are what termination and the order of the clusters are proved about. -/
structure Progress : Type where
  labels : List Label
  /-- the points whose region was queried -/
  queries : List Nat := []
  /-- the points that got a cluster -/
  joins : List (Nat × Nat) := []

namespace Progress

/-- `labels[q] = id;` -/
def join (s : Progress) (q id : Nat) : Progress :=
  { s with labels := s.labels.set q (.cluster id), joins := (q, id) :: s.joins }

/-- `labels[i] = -2;` -/
def noise (s : Progress) (i : Nat) : Progress := { s with labels := s.labels.set i .noise }

def query (s : Progress) (q : Nat) : Progress := { s with queries := q :: s.queries }

end Progress

/-! ## The loops

As they are written, but with fuel. A pass of the inner loop is a function of its own, since all
the work is in it, and so is the growth of the vector. -/

/-- One pass of the inner loop: the label of the point decides whether it is passed over, becomes
a border point, or joins and is queried. -/
def expandPass (p : ClusterParams K) (pts : List (Point2D K)) (id q : Nat) (s : Progress)
    (neighbors : List Nat) : Progress × List Nat :=
  let s := if s.labels[q]? = some .noise then s.join q id else s
  if s.labels[q]? ≠ some .unvisited then (s, neighbors)
  else
    let s := (s.join q id).query q
    let qNeighbors := regionQuery p pts q
    (s, if p.minPts ≤ qNeighbors.length then neighbors ++ qNeighbors else neighbors)

/-- `for (j = 0; j < neighbors.size(); ++j)`, with a bound on the number of passes. The list may
get longer in every pass. -/
def expandLoop (p : ClusterParams K) (pts : List (Point2D K)) (id : Nat) :
    Nat → Progress → List Nat → Nat → Option Progress
  | 0, _, _, _ => none
  | fuel + 1, s, neighbors, j =>
    match neighbors[j]? with
    | none => some s
    | some q =>
      let (s, neighbors) := expandPass p pts id q s neighbors
      expandLoop p pts id fuel s neighbors (j + 1)

/-- The outer loop, with the number of clusters so far. It ends early when there are as many as
there may be. -/
def dbscanLoop (p : ClusterParams K) (pts : List (Point2D K)) (fuel : Nat) :
    List Nat → Progress → Nat → Option (Progress × Nat)
  | [], s, clusterId => some (s, clusterId)
  | i :: rest, s, clusterId =>
    if s.labels[i]? ≠ some .unvisited then dbscanLoop p pts fuel rest s clusterId
    else
      let neighbors := regionQuery p pts i
      let s := s.query i
      if (neighbors.length : Int) + 1 < p.minPts then
        dbscanLoop p pts fuel rest (s.noise i) clusterId
      else
        match expandLoop p pts clusterId fuel (s.join i clusterId) neighbors 0 with
        | none => none
        | some s =>
          if p.maxObjects ≤ (clusterId : Int) + 1 then some (s, clusterId + 1)
          else dbscanLoop p pts fuel rest s (clusterId + 1)

/-! ## The log

`Sound` ties the log to the labels. A point is queried when it is visited, and a visited point is
never unvisited again, which is why no query is repeated; a point joins when it is noise or
unvisited, and never leaves. -/

/-- The log agrees with the labels: no point is in it twice, and the clusters are numbered
below a bound. -/
structure Progress.Sound (n bound : Nat) (s : Progress) : Prop where
  length : s.labels.length = n
  queries_nodup : s.queries.Nodup
  queries_visited : ∀ q ∈ s.queries, q < n ∧ s.labels[q]? ≠ some .unvisited
  joins_nodup : (s.joins.map Prod.fst).Nodup
  joins_iff : ∀ q id, (q, id) ∈ s.joins ↔ s.labels[q]? = some (.cluster id)
  bounded : ∀ q id, (q, id) ∈ s.joins → id < bound

namespace Progress.Sound

variable {n bound id q : Nat} {s : Progress}

theorem mono (h : Sound n bound s) {bound' : Nat} (hle : bound ≤ bound') : Sound n bound' s :=
  { h with bounded := fun q id hmem => (h.bounded q id hmem).trans_le hle }

/-- A point that joins is in the cluster it joins. -/
theorem joined (h : Sound n bound s) (hq : q < n) :
    (s.join q id).labels[q]? = some (.cluster id) :=
  List.getElem?_set_self (h.length.symm ▸ hq)

/-- A point that is in no cluster joins one. Joins are noted, so a point that joins twice would
be noticed. -/
theorem join (h : Sound n bound s) (hid : id < bound) (hq : q < n)
    (hfree : ∀ c, s.labels[q]? ≠ some (.cluster c)) : Sound n bound (s.join q id) where
  length := by rw [Progress.join, List.length_set, h.length]
  queries_nodup := h.queries_nodup
  queries_visited := by
    intro r hr
    refine ⟨(h.queries_visited r hr).1, ?_⟩
    by_cases hrq : r = q
    · subst hrq
      simp [h.joined hq]
    · rw [Progress.join, List.getElem?_set_ne (Ne.symm hrq)]
      exact (h.queries_visited r hr).2
  joins_nodup := by
    refine List.nodup_cons.mpr ⟨fun hmem => ?_, h.joins_nodup⟩
    obtain ⟨⟨r, c⟩, hjoin, rfl⟩ := List.mem_map.mp hmem
    exact hfree c ((h.joins_iff r c).mp hjoin)
  joins_iff := by
    intro r c
    change (r, c) ∈ (q, id) :: s.joins ↔ _
    rw [List.mem_cons, h.joins_iff]
    by_cases hrq : r = q
    · subst hrq
      rw [h.joined hq]
      simp [hfree c, eq_comm]
    · rw [Progress.join, List.getElem?_set_ne (Ne.symm hrq)]
      simp [hrq]
  bounded := by
    intro r c hmem
    rcases List.mem_cons.mp hmem with heq | hmem
    · obtain ⟨-, rfl⟩ := Prod.mk.inj heq
      exact hid
    · exact h.bounded r c hmem

/-- A point is queried when it has just been visited, and therefore once at most. -/
theorem query (h : Sound n bound s) (hq : q < n) (hvisited : s.labels[q]? ≠ some .unvisited)
    (hnew : q ∉ s.queries) : Sound n bound (s.query q) where
  length := h.length
  queries_nodup := List.nodup_cons.mpr ⟨hnew, h.queries_nodup⟩
  queries_visited := by
    intro r hr
    rcases List.mem_cons.mp hr with rfl | hr
    · exact ⟨hq, hvisited⟩
    · exact h.queries_visited r hr
  joins_nodup := h.joins_nodup
  joins_iff := h.joins_iff
  bounded := h.bounded

/-- A point that is not visited yet becomes noise. -/
theorem noise (h : Sound n bound s) (hunvisited : s.labels[q]? = some .unvisited) :
    Sound n bound (s.noise q) where
  length := by rw [Progress.noise, List.length_set, h.length]
  queries_nodup := h.queries_nodup
  queries_visited := by
    intro r hr
    have hrq : r ≠ q := by
      rintro rfl
      exact (h.queries_visited r hr).2 hunvisited
    rw [Progress.noise, List.getElem?_set_ne hrq.symm]
    exact h.queries_visited r hr
  joins_nodup := h.joins_nodup
  joins_iff := by
    intro r c
    refine (h.joins_iff r c).trans ?_
    by_cases hrq : r = q
    · subst hrq
      obtain ⟨hlen, -⟩ := List.getElem?_eq_some_iff.mp hunvisited
      rw [hunvisited, Progress.noise, List.getElem?_set_self hlen]
      simp
    · rw [Progress.noise, List.getElem?_set_ne (Ne.symm hrq)]
  bounded := h.bounded

theorem not_queried (h : Sound n bound s) (hunvisited : s.labels[q]? = some .unvisited) :
    q ∉ s.queries := fun hmem => (h.queries_visited q hmem).2 hunvisited

end Progress.Sound

/-! ## The inner loop

The number of passes is bounded by a measure that falls with each of them: every unvisited point
may still append a whole row of neighbours, and the rest of the vector is still to be walked. -/

section Inner

variable {p : ClusterParams K} {pts : List (Point2D K)} {id q bound : Nat} {s : Progress}
  {neighbors : List Nat}

theorem lt_of_mem_regionQuery {r : Nat} (h : r ∈ regionQuery p pts q) : r < pts.length :=
  (lt_of_isNear p pts ((mem_regionQuery p pts).mp h).2).2

theorem length_regionQuery_le : (regionQuery p pts q).length ≤ pts.length :=
  (List.length_filter_le _ _).trans_eq List.length_range

/-- How many passes there are at most, with `n` points: those on the list, and for each point
that is unvisited as many as it can append. Every pass makes the number smaller. -/
def passesLeft (n : Nat) (s : Progress) (neighbors : List Nat) (j : Nat) : Nat :=
  s.labels.count .unvisited * (n + 1) + (neighbors.length - j)

/-- What one pass of the expansion does. A point that is visited for the first time pays for all
the neighbours it appends, which is the measure in `appends`. -/
structure Pass (p : ClusterParams K) (pts : List (Point2D K)) (id q bound : Nat) (s : Progress)
    (neighbors : List Nat) (result : Progress × List Nat) : Prop where
  sound : result.1.Sound pts.length bound
  joins : s.joins <:+ result.1.joins
  appends : ∃ added, result.2 = neighbors ++ added ∧ (∀ r ∈ added, r < pts.length) ∧
    result.1.labels.count .unvisited * (pts.length + 1) + added.length ≤
      s.labels.count .unvisited * (pts.length + 1) ∧
    ∀ rest, expand p pts id s.labels (q :: rest) = expand p pts id result.1.labels (rest ++ added)

/-- What the work list gets when a point is visited: its neighbours if they are enough, and
nothing otherwise. -/
def addedBy (p : ClusterParams K) (pts : List (Point2D K)) (q : Nat) : List Nat :=
  if p.minPts ≤ (regionQuery p pts q).length then regionQuery p pts q else []

theorem lt_of_mem_addedBy {r : Nat} (h : r ∈ addedBy p pts q) : r < pts.length := by
  rw [addedBy] at h
  split_ifs at h
  · exact lt_of_mem_regionQuery h
  · cases h

/-- No point appends more than all points. -/
theorem length_addedBy_le : (addedBy p pts q).length ≤ pts.length := by
  rw [addedBy]
  split_ifs
  · exact length_regionQuery_le
  · exact Nat.zero_le _

/-- A point of a cluster is passed over. It may be one of this cluster, which has been reached
twice, or a border point of an earlier one. -/
theorem pass_of_cluster {c : Nat} (h : s.Sound pts.length bound)
    (hget : s.labels[q]? = some (.cluster c)) :
    Pass p pts id q bound s neighbors (expandPass p pts id q s neighbors) := by
  have hpass : expandPass p pts id q s neighbors = (s, neighbors) := by simp [expandPass, hget]
  rw [hpass]
  refine ⟨h, List.suffix_rfl, [], (List.append_nil _).symm, nofun, le_rfl, fun rest => ?_⟩
  rw [expand]
  simp [claimNoise, hget]

/-- A noise point becomes a border point. It is not queried: it was visited before, and had too
few neighbours then. -/
theorem pass_of_noise (h : s.Sound pts.length bound) (hid : id < bound) (hq : q < pts.length)
    (hget : s.labels[q]? = some .noise) :
    Pass p pts id q bound s neighbors (expandPass p pts id q s neighbors) := by
  have hjoined : (s.join q id).labels[q]? = some (.cluster id) := h.joined hq
  have hclaim : claimNoise id q s.labels = (s.join q id).labels := if_pos hget
  have hpass : expandPass p pts id q s neighbors = (s.join q id, neighbors) := by
    simp [expandPass, hget, hjoined]
  rw [hpass]
  refine ⟨h.join hid hq (by simp [hget]), List.suffix_cons _ _, [], (List.append_nil _).symm, nofun,
    ?_, fun rest => ?_⟩
  · have hcount := count_claimNoise id q s.labels
    rw [hclaim] at hcount
    exact (congrArg (· * (pts.length + 1)) hcount).le
  · rw [expand]
    simp [hclaim, hjoined]

/-- A point that is not visited yet is, and queried. Its neighbours go to the end of the list if
it has enough of them. -/
theorem pass_of_unvisited (h : s.Sound pts.length bound) (hid : id < bound) (hq : q < pts.length)
    (hget : s.labels[q]? = some .unvisited) :
    Pass p pts id q bound s neighbors (expandPass p pts id q s neighbors) := by
  have happend : ∀ work : List Nat, (if p.minPts ≤ (regionQuery p pts q).length then
      work ++ regionQuery p pts q else work) = work ++ addedBy p pts q := by
    intro work
    rw [addedBy]
    split_ifs
    · rfl
    · exact (List.append_nil work).symm
  have hpass : expandPass p pts id q s neighbors =
      ((s.join q id).query q, neighbors ++ addedBy p pts q) := by
    simp [expandPass, hget, happend]
  have hjoin := h.join hid hq (by simp [hget])
  have hvisited : (s.join q id).labels[q]? ≠ some .unvisited := by simp [h.joined hq]
  rw [hpass]
  refine ⟨hjoin.query hq hvisited (h.not_queried hget), List.suffix_cons _ _, addedBy p pts q, rfl,
    fun r hr => lt_of_mem_addedBy hr, ?_, fun rest => ?_⟩
  · have hcount : (s.labels.set q (.cluster id)).count .unvisited < s.labels.count .unvisited :=
      count_visit hget
    have hadded : (addedBy p pts q).length ≤ pts.length := length_addedBy_le
    calc (s.labels.set q (.cluster id)).count .unvisited * (pts.length + 1) +
          (addedBy p pts q).length
        ≤ ((s.labels.set q (.cluster id)).count .unvisited + 1) * (pts.length + 1) := by
          rw [Nat.succ_mul]
          omega
      _ ≤ s.labels.count .unvisited * (pts.length + 1) := Nat.mul_le_mul_right _ hcount
  · have hclaim : claimNoise id q s.labels = s.labels := if_neg (by simp [hget])
    rw [expand]
    simp only [hclaim, hget, if_true, happend]
    rfl

/-- One pass, whichever label its point has. -/
theorem expandPass_spec (h : s.Sound pts.length bound) (hid : id < bound) (hq : q < pts.length) :
    Pass p pts id q bound s neighbors (expandPass p pts id q s neighbors) := by
  have hlen : q < s.labels.length := h.length.symm ▸ hq
  have hget : s.labels[q]? = some s.labels[q] := List.getElem?_eq_getElem hlen
  cases hlabel : s.labels[q] with
  | cluster c => exact pass_of_cluster h (hlabel ▸ hget)
  | noise => exact pass_of_noise h hid hq (hlabel ▸ hget)
  | unvisited => exact pass_of_unvisited h hid hq (hlabel ▸ hget)

/-- **The inner loop** ends, as the expansion does. By induction on the fuel: a pass leaves the
measure smaller (`expandPass_spec`), the vector is only appended to, and what is behind the index
is what the recursion of `expand` has for its work list. -/
theorem expandLoop_ends {fuel j : Nat} (h : s.Sound pts.length bound) (hid : id < bound)
    (hn : ∀ q ∈ neighbors, q < pts.length) (hfuel : passesLeft pts.length s neighbors j < fuel) :
    ∃ s', expandLoop p pts id fuel s neighbors j = some s' ∧ s'.Sound pts.length bound ∧
      s.joins <:+ s'.joins ∧ s'.labels = expand p pts id s.labels (neighbors.drop j) := by
  induction fuel generalizing s neighbors j with
  | zero => exact absurd hfuel (Nat.not_lt_zero _)
  | succ fuel ih =>
    rw [expandLoop]
    cases hget : neighbors[j]? with
    | none =>
      refine ⟨s, rfl, h, List.suffix_rfl, ?_⟩
      rw [List.drop_eq_nil_of_le (List.getElem?_eq_none_iff.mp hget), expand]
    | some q =>
      obtain ⟨hj, hq⟩ := List.getElem?_eq_some_iff.mp hget
      obtain ⟨hsound, hjoins, added, happends, hadded, hcount, hexpand⟩ :=
        expandPass_spec h hid (hn q (List.mem_of_getElem? hget))
      dsimp only
      rw [happends]
      have hmem : ∀ r ∈ neighbors ++ added, r < pts.length := by
        intro r hr
        rcases List.mem_append.mp hr with hr | hr
        · exact hn r hr
        · exact hadded r hr
      obtain ⟨s', hloop, hsound', hjoins', hlabels⟩ := ih hsound hmem (j := j + 1) (by
        rw [passesLeft] at hfuel ⊢
        rw [List.length_append]
        omega)
      refine ⟨s', hloop, hsound', hjoins.trans hjoins', hlabels.trans ?_⟩
      rw [List.drop_eq_getElem_cons hj, hq, hexpand, List.drop_append_of_le_length hj]

end Inner

/-! ## The outer loop

A cluster that was started keeps its seed, and so it is never empty. -/

section Outer

variable {p : ClusterParams K} {pts : List (Point2D K)} {clusterId : Nat} {s : Progress}

/-- All clusters so far have points: at least the seed, which joins its cluster before the
expansion begins. -/
structure Progress.Full (n clusterId : Nat) (s : Progress) : Prop extends s.Sound n clusterId where
  nonempty : ∀ c < clusterId, ∃ q, (q, c) ∈ s.joins

omit [Field K] [LinearOrder K] in
theorem Progress.Full.started {n : Nat} (h : s.Full n clusterId) {s' : Progress} {i : Nat}
    (hsound : s'.Sound n (clusterId + 1)) (hjoins : (i, clusterId) :: s.joins <:+ s'.joins) :
    s'.Full n (clusterId + 1) := by
  refine ⟨hsound, fun c hc => ?_⟩
  rcases Nat.lt_succ_iff_lt_or_eq.mp hc with hc | rfl
  · obtain ⟨q, hq⟩ := h.nonempty c hc
    exact ⟨q, hjoins.subset (List.mem_cons_of_mem _ hq)⟩
  · exact ⟨i, hjoins.subset List.mem_cons_self⟩

/-- A point that is not visited yet starts a cluster, and the expansion from there ends. The fuel
is more than the passes that `passesLeft` allows. -/
theorem start_ends {fuel i : Nat} (hfuel : pts.length * (pts.length + 2) < fuel)
    (h : s.Full pts.length clusterId) (hi : i < pts.length)
    (hget : s.labels[i]? = some .unvisited) :
    ∃ s', expandLoop p pts clusterId fuel ((s.query i).join i clusterId) (regionQuery p pts i) 0 =
        some s' ∧
      s'.Full pts.length (clusterId + 1) ∧
      s'.labels =
        expand p pts clusterId (s.labels.set i (.cluster clusterId)) (regionQuery p pts i) := by
  have hjoin := (h.mono (Nat.le_succ _)).join (Nat.lt_succ_self clusterId) hi (by simp [hget])
  have hlabel : (s.join i clusterId).labels[i]? ≠ some .unvisited := by simp [h.joined hi]
  have hsound : ((s.query i).join i clusterId).Sound pts.length (clusterId + 1) :=
    hjoin.query hi hlabel (h.not_queried hget)
  have hpasses :
      passesLeft pts.length ((s.query i).join i clusterId) (regionQuery p pts i) 0 < fuel := by
    have hcount : ((s.query i).join i clusterId).labels.count .unvisited ≤ pts.length :=
      List.count_le_length.trans_eq hsound.length
    have hquery : (regionQuery p pts i).length ≤ pts.length := length_regionQuery_le
    refine lt_of_le_of_lt ?_ hfuel
    calc passesLeft pts.length ((s.query i).join i clusterId) (regionQuery p pts i) 0
        ≤ pts.length * (pts.length + 1) + pts.length :=
          Nat.add_le_add (Nat.mul_le_mul_right _ hcount) hquery
      _ = pts.length * (pts.length + 2) := by ring
  obtain ⟨s', hloop, hsound', hjoins, hlabels⟩ :=
    expandLoop_ends hsound (Nat.lt_succ_self clusterId) (fun _ hq => lt_of_mem_regionQuery hq)
      hpasses
  exact ⟨s', hloop, h.started hsound' hjoins, hlabels⟩

/-- **The outer loop** ends, as `dbscan` does, when the fuel is more than any of its expansions
can use. -/
theorem dbscanLoop_ends {fuel : Nat} (hfuel : pts.length * (pts.length + 2) < fuel) {is : List Nat}
    (his : ∀ i ∈ is, i < pts.length) (h : s.Full pts.length clusterId) :
    ∃ s', dbscanLoop p pts fuel is s clusterId =
        some (s', (dbscan p pts is s.labels clusterId).2) ∧
      s'.labels = (dbscan p pts is s.labels clusterId).1 ∧
      s'.Full pts.length (dbscan p pts is s.labels clusterId).2 := by
  induction is generalizing s clusterId with
  | nil => exact ⟨s, rfl, rfl, h⟩
  | cons i rest ih =>
    have hrest : ∀ i ∈ rest, i < pts.length := fun i hi => his i (List.mem_cons_of_mem _ hi)
    have hi : i < pts.length := his i List.mem_cons_self
    simp only [dbscanLoop, dbscan]
    split_ifs with hvisited hfew hmax
    · exact ih hrest h
    · have hget := not_not.mp hvisited
      have hnoise := h.toSound.noise hget
      have hlabel : (s.noise i).labels[i]? ≠ some .unvisited := by
        simp [Progress.noise, List.getElem?_set_self (h.length.symm ▸ hi)]
      exact ih hrest ⟨hnoise.query hi hlabel (h.not_queried hget), h.nonempty⟩
    · obtain ⟨s', hloop, hfull, hlabels⟩ := start_ends hfuel h hi (not_not.mp hvisited)
      refine ⟨s', ?_, hlabels, hfull⟩
      rw [hloop]
    · obtain ⟨s', hloop, hfull, hlabels⟩ := start_ends hfuel h hi (not_not.mp hvisited)
      rw [hloop, ← hlabels]
      exact ih hrest hfull

/-- There is room for the next cluster as long as the loop goes on, so in the end there are not
too many. -/
theorem dbscan_le_maxObjects {is : List Nat} {labels : List Label}
    (hroom : (clusterId : Int) < p.maxObjects) :
    ((dbscan p pts is labels clusterId).2 : Int) ≤ p.maxObjects := by
  induction is generalizing labels clusterId with
  | nil => exact hroom.le
  | cons i rest ih =>
    simp only [dbscan]
    split_ifs with hvisited hfew hmax
    · exact ih hroom
    · exact ih hroom
    · exact_mod_cast hroom
    · exact ih (by exact_mod_cast not_le.mp hmax)

end Outer

/-! ## The clusters of a scan

The sums of the source run over the points in order and pick those with the label of a cluster.
As the labels are below the number of clusters and every cluster has a point, these are sums over
sets that are not empty, do not meet, and have all the labelled points in them. -/

section Clusters

variable (p : ClusterParams K) (pts : List (Point2D K))

/-- The points of a cluster. -/
def clusterPoints (labels : List Label) (c : Nat) : Finset (Fin pts.length) :=
  Finset.univ.filter fun i => clusterOf labels i = some c

/-- Before the loops. -/
def noProgress : Progress := { labels := .replicate pts.length .unvisited }

/-- The loops end. No point is queried twice, and the points in a cluster have joined that one
and no other. -/
def Ends : Prop :=
  ∀ fuel, pts.length * (pts.length + 2) < fuel → ∃ s clusterId,
    dbscanLoop p pts fuel (List.range pts.length) (noProgress pts) 0 = some (s, clusterId) ∧
    s.labels = labelsOf p pts ∧ clusterId = (clustersOf p pts).length ∧
    s.queries.Nodup ∧ (s.joins.map Prod.fst).Nodup ∧
    ∀ q c, (q, c) ∈ s.joins ↔ clusterOf (labelsOf p pts) q = some c

/-- What is returned are the clusters of the points: numbered without gaps, none of them empty,
with the right counts and with the mean of their points as centroid. -/
structure WellFormed : Prop where
  length_le : ((clustersOf p pts).length : Int) ≤ p.maxObjects
  numbered : ∀ i c, clusterOf (labelsOf p pts) i = some c → c < (clustersOf p pts).length
  nonempty : ∀ c < (clustersOf p pts).length, (clusterPoints pts (labelsOf p pts) c).Nonempty
  pointCount : ∀ c cluster, (clustersOf p pts)[c]? = some cluster →
    cluster.pointCount = ((clusterPoints pts (labelsOf p pts) c).card : Int)
  mean : ∀ c cluster, (clustersOf p pts)[c]? = some cluster →
    let members := clusterPoints pts (labelsOf p pts) c
    cluster.x = (∑ i ∈ members, (pts.get i).x) / members.card ∧
      cluster.y = (∑ i ∈ members, (pts.get i).y) / members.card
  total : ((clustersOf p pts).map Cluster.pointCount).sum =
    ((Finset.univ.filter fun i : Fin pts.length =>
      (clusterOf (labelsOf p pts) i).isSome = true).card : Int)

omit [Field K] [LinearOrder K] in
theorem noProgress_full : (noProgress pts).Full pts.length 0 where
  length := List.length_replicate
  queries_nodup := List.nodup_nil
  queries_visited := nofun
  joins_nodup := List.nodup_nil
  joins_iff := by
    intro q c
    refine iff_of_false List.not_mem_nil fun h => ?_
    rw [noProgress, List.getElem?_replicate] at h
    split at h <;> cases h
  bounded := nofun
  nonempty := nofun

/-- The members of a cluster, in the order of the points. This is the order in which `detect`
adds them up. -/
def memberList (labels : List Label) (c : Nat) : List (Fin pts.length) :=
  (List.finRange pts.length).filter fun i => clusterOf labels i = some c

omit [Field K] [LinearOrder K] in
theorem toFinset_memberList (labels : List Label) (c : Nat) :
    (memberList pts labels c).toFinset = clusterPoints pts labels c := by
  rw [memberList, List.toFinset_filter, List.toFinset_finRange, clusterPoints]
  exact Finset.filter_congr fun i _ => decide_eq_true_iff

omit [Field K] [LinearOrder K] in
theorem memberList_nodup (labels : List Label) (c : Nat) : (memberList pts labels c).Nodup :=
  (List.nodup_finRange _).filter _

omit [Field K] [LinearOrder K] in
theorem length_memberList (labels : List Label) (c : Nat) :
    (memberList pts labels c).length = (clusterPoints pts labels c).card := by
  rw [← toFinset_memberList, List.toFinset_card_of_nodup (memberList_nodup pts labels c)]

omit [LinearOrder K] in
theorem sum_memberList (labels : List Label) (c : Nat) (f : Fin pts.length → K) :
    ((memberList pts labels c).map f).sum = ∑ i ∈ clusterPoints pts labels c, f i := by
  rw [← toFinset_memberList, List.sum_toFinset f (memberList_nodup pts labels c)]

omit [Field K] [LinearOrder K] in
/-- The points that `detect` adds up for a cluster. It goes through points and labels side by
side. -/
theorem filter_zip_labels {labels : List Label} (hlen : labels.length = pts.length) (c : Nat) :
    ((pts.zip labels).filter fun m => decide (m.2 = .cluster c)).map Prod.fst =
      (memberList pts labels c).map pts.get := by
  have hzip : pts.zip labels =
      (List.finRange pts.length).map fun i => (pts.get i, labels.get (i.cast hlen.symm)) :=
    List.ext_getElem (by simp [hlen]) fun i _ _ => by simp
  rw [hzip, List.filter_map, List.map_map, memberList]
  refine congrArg (List.map pts.get) (List.filter_congr fun i _ => ?_)
  refine decide_eq_decide.mpr ?_
  rw [clusterOf_eq_some, List.getElem?_eq_getElem (hlen.symm ▸ i.isLt), Option.some.injEq]
  rfl

omit [Field K] [LinearOrder K] in
/-- The clusters share no point, since a point has one label. So their sizes add up to the number
of points that are in a cluster. -/
theorem sum_card_clusterPoints {labels : List Label} {k : Nat}
    (hnumbered : ∀ i c, clusterOf labels i = some c → c < k) :
    ∑ c ∈ Finset.range k, (clusterPoints pts labels c).card =
      (Finset.univ.filter fun i : Fin pts.length => (clusterOf labels i).isSome = true).card := by
  have hmaps : Set.MapsTo (fun i : Fin pts.length => (clusterOf labels i).getD k)
      (Finset.univ.filter fun i : Fin pts.length => (clusterOf labels i).isSome = true)
      (Finset.range k) := by
    intro i hi
    obtain ⟨c, hc⟩ := Option.isSome_iff_exists.mp (Finset.mem_filter.mp hi).2
    simpa [hc] using hnumbered i c hc
  rw [Finset.card_eq_sum_card_fiberwise hmaps]
  refine Finset.sum_congr rfl fun c hc => congrArg Finset.card ?_
  ext i
  have hck := Finset.mem_range.mp hc
  cases hi : clusterOf labels i with
  | none => simp [clusterPoints, hi]
  | some c' => simp [clusterPoints, hi]

omit [LinearOrder K] in
/-- The points of a cluster that has some: its centroid is their mean, and its count is their
number. -/
theorem centroid_eq {labels : List Label} (hlen : labels.length = pts.length) {c : Nat}
    (hne : (clusterPoints pts labels c).Nonempty) :
    centroid pts labels c =
      { x := (∑ i ∈ clusterPoints pts labels c, (pts.get i).x) / (clusterPoints pts labels c).card
        y := (∑ i ∈ clusterPoints pts labels c, (pts.get i).y) / (clusterPoints pts labels c).card
        z := 0
        pointCount := (clusterPoints pts labels c).card
        id := "obj_" ++ toString c } := by
  have hcard := hne.card_pos.ne'
  rw [centroid, filter_zip_labels pts hlen]
  simp only [List.length_map, length_memberList, if_neg hcard, List.map_map]
  rw [← sum_memberList, ← sum_memberList]
  rfl

theorem clustersOf_eq : clustersOf p pts =
    (List.range (dbscan p pts (List.range pts.length) (noProgress pts).labels 0).2).map
      (centroid pts (labelsOf p pts)) := by
  rw [clustersOf]
  split_ifs with hzero
  · rw [hzero]
    rfl
  · rfl

theorem length_clustersOf : (clustersOf p pts).length =
    (dbscan p pts (List.range pts.length) (noProgress pts).labels 0).2 := by
  rw [clustersOf_eq, List.length_map, List.length_range]

/-- **The loops end**. The expansion runs over a list that grows while it is read, but each point
is labelled once, and only then appends its neighbours. -/
theorem loops_end : Ends p pts := by
  intro fuel hfuel
  obtain ⟨s, hloop, hlabels, hfull⟩ := dbscanLoop_ends (p := p) hfuel
    (fun i hi => List.mem_range.mp hi) (noProgress_full pts)
  refine ⟨s, _, hloop, hlabels, (length_clustersOf p pts).symm, hfull.queries_nodup,
    hfull.joins_nodup, fun q c => ?_⟩
  rw [hfull.joins_iff, hlabels, clusterOf_eq_some]
  rfl

theorem labelsOf_full : ∃ s : Progress, s.labels = labelsOf p pts ∧
    s.Full pts.length (clustersOf p pts).length := by
  obtain ⟨s, -, hlabels, hfull⟩ := dbscanLoop_ends (p := p) (Nat.lt_succ_self _)
    (fun i hi => List.mem_range.mp hi) (noProgress_full pts)
  exact ⟨s, hlabels, (length_clustersOf p pts).symm ▸ hfull⟩

variable {p pts}

/-- Labels are below the number of clusters. -/
theorem lt_length_clustersOf {i c : Nat} (h : clusterOf (labelsOf p pts) i = some c) :
    c < (clustersOf p pts).length := by
  obtain ⟨s, hlabels, hfull⟩ := labelsOf_full p pts
  rw [clusterOf_eq_some, ← hlabels, ← hfull.joins_iff] at h
  exact hfull.bounded i c h

/-- Every cluster has points. -/
theorem clusterPoints_nonempty {c : Nat} (hc : c < (clustersOf p pts).length) :
    (clusterPoints pts (labelsOf p pts) c).Nonempty := by
  obtain ⟨s, hlabels, hfull⟩ := labelsOf_full p pts
  obtain ⟨q, hq⟩ := hfull.nonempty c hc
  rw [hfull.joins_iff] at hq
  obtain ⟨hlt, -⟩ := List.getElem?_eq_some_iff.mp hq
  rw [hlabels] at hq
  exact ⟨⟨q, hfull.length ▸ hlt⟩,
    Finset.mem_filter.mpr ⟨Finset.mem_univ _, clusterOf_eq_some.mpr hq⟩⟩

variable (p pts)

/-- The parts for a list of points, put together. That there is room for a cluster at all is the
only condition. -/
theorem clusters_wellFormed (hmax : 1 ≤ p.maxObjects) : WellFormed p pts := by
  have hlen : (labelsOf p pts).length = pts.length := by
    obtain ⟨s, hlabels, hfull⟩ := labelsOf_full p pts
    exact hlabels ▸ hfull.length
  have hcluster : ∀ c cluster, (clustersOf p pts)[c]? = some cluster →
      c < (clustersOf p pts).length ∧ centroid pts (labelsOf p pts) c = cluster := by
    intro c cluster hget
    refine ⟨(List.getElem?_eq_some_iff.mp hget).1, ?_⟩
    rw [clustersOf_eq, List.getElem?_map, Option.map_eq_some_iff] at hget
    obtain ⟨c', hc', hcentroid⟩ := hget
    obtain ⟨_, rfl⟩ := List.getElem?_eq_some_iff.mp hc'
    rwa [List.getElem_range] at hcentroid
  refine ⟨?_, fun _ _ => lt_length_clustersOf, fun _ => clusterPoints_nonempty,
    fun c cluster hget => ?_, fun c cluster hget => ?_, ?_⟩
  · rw [length_clustersOf]
    exact dbscan_le_maxObjects (by exact_mod_cast hmax)
  · obtain ⟨hc, rfl⟩ := hcluster c cluster hget
    rw [centroid_eq pts hlen (clusterPoints_nonempty hc)]
  · obtain ⟨hc, rfl⟩ := hcluster c cluster hget
    rw [centroid_eq pts hlen (clusterPoints_nonempty hc)]
    exact ⟨rfl, rfl⟩
  · have hcounts : ∀ c ∈ List.range (clustersOf p pts).length,
        (centroid pts (labelsOf p pts) c).pointCount =
          ((clusterPoints pts (labelsOf p pts) c).card : Int) := by
      intro c hc
      rw [centroid_eq pts hlen (clusterPoints_nonempty (List.mem_range.mp hc))]
    have hmap : (clustersOf p pts).map Cluster.pointCount =
        (List.range (clustersOf p pts).length).map fun c =>
          ((clusterPoints pts (labelsOf p pts) c).card : Int) := by
      rw [← List.map_congr_left hcounts, length_clustersOf, clustersOf_eq, List.map_map]
      rfl
    rw [hmap, ← sum_card_clusterPoints pts fun _ _ => lt_length_clustersOf, Nat.cast_sum,
      ← List.toFinset_range, List.sum_toFinset _ List.nodup_range]

/-- **The clusters of a scan**: the loops end, no point is queried or joins twice, there are at
most `max_objects` clusters, none is empty, and each is returned with the number and the mean of
its points. Nothing is asked of the scan; of the parameters only that one cluster is allowed. -/
theorem detect_wellFormed [CMath K] (hmax : 1 ≤ p.maxObjects) (ranges : Nat → Option K)
    (angleMin angleIncrement : K) :
    let pts := points p ranges angleMin angleIncrement
    p.detect ranges angleMin angleIncrement = clustersOf p pts ∧ Ends p pts ∧ WellFormed p pts :=
  ⟨rfl, loops_end p _, clusters_wellFormed p _ hmax⟩

theorem detect_wellFormed_wall :
    let p : ClusterParams ℝ := {}
    let pts := points p (fun _ => some 2) 0 0.01
    p.detect (fun _ => some 2) 0 0.01 = clustersOf p pts ∧ Ends p pts ∧ WellFormed p pts :=
  detect_wellFormed {} (by norm_num) _ 0 0.01

end Clusters

end AmrFramework.Perception
