import AmrFramework.ClusterDetector
import AmrFramework.DensityGraph

/-!
# The labels of the clusters

The labels of `ClusterDetector::detect`, against what density-based clusters are.
The two tests for a core point count differently: a cluster is started at a point
with `min_pts` points within `eps`, itself included, and it is gone on from a point
with `min_pts` others. So it does not go on from a core point that has just enough
neighbours, and the labels are a clustering only where that does no harm
(`labels_isClustering_iff`).

What is a clustering, and which core points must be gone on from to make one, is a matter of
graphs (`DensityGraph`). What is left for this module is that the loops of the source grow
clusters in the graph of a scan, in the sense of the library.
-/

namespace AmrFramework.Perception

open DensityGraph

universe u

variable {K : Type u} [Field K] [LinearOrder K] (p : ClusterParams K) (pts : List (Point2D K))

/-- The points within `eps`, the point itself included. -/
def within (i : Nat) : List Nat := (List.range pts.length).filter (isNear p pts i)

/-- Being near is symmetric, -/
theorem isNear_symm {i j : Nat} (h : isNear p pts i j = true) : isNear p pts j i = true := by
  rw [isNear] at h ⊢
  split at h
  · next a b ha hb =>
    rw [ha, hb]
    simp only [decide_eq_true_eq] at h ⊢
    convert h using 1
    ring
  · cases h

theorem lt_of_isNear {i j : Nat} (h : isNear p pts i j = true) :
    i < pts.length ∧ j < pts.length := by
  rw [isNear] at h
  split at h
  · next a b ha hb =>
    exact ⟨(List.getElem?_eq_some_iff.mp ha).1, (List.getElem?_eq_some_iff.mp hb).1⟩
  · cases h

theorem mem_regionQuery {q i : Nat} :
    i ∈ regionQuery p pts q ↔ i ≠ q ∧ isNear p pts q i = true := by
  simp only [regionQuery, List.mem_filter, List.mem_range, Bool.and_eq_true, decide_eq_true_eq]
  exact ⟨And.right, fun h => ⟨(lt_of_isNear p pts h.2).2, h⟩⟩

theorem eq_or_mem_regionQuery {q i : Nat} (h : isNear p pts q i = true) :
    i = q ∨ i ∈ regionQuery p pts q :=
  or_iff_not_imp_left.mpr fun hne => (mem_regionQuery p pts).mpr ⟨hne, h⟩

variable [IsStrictOrderedRing K]

/-- and every point is near itself. -/
theorem isNear_self {i : Nat} (hi : i < pts.length) : isNear p pts i i = true := by
  refine isNear_of_getElem? (List.getElem?_eq_getElem hi) (List.getElem?_eq_getElem hi) ?_
  simp [mul_self_nonneg]

/-- A query leaves the point itself out. -/
theorem length_within {i : Nat} (hi : i < pts.length) :
    (within p pts i).length = (regionQuery p pts i).length + 1 := by
  have hmem : i ∈ within p pts i :=
    List.mem_filter.mpr ⟨List.mem_range.mpr hi, isNear_self p pts hi⟩
  have hquery : regionQuery p pts i = (within p pts i).erase i := by
    have hnodup : (within p pts i).Nodup := List.nodup_range.filter _
    rw [hnodup.erase_eq_filter, within, List.filter_filter]
    refine List.filter_congr fun j _ => ?_
    by_cases hj : j = i <;> simp [hj]
  rw [hquery, List.length_erase_of_mem hmem, Nat.sub_add_cancel (List.length_pos_of_mem hmem)]

/-- The points of a scan. A core point has `min_pts` points within `eps`, itself included,
and a strong one has one more. -/
def scanGraph : DensityGraph Nat where
  near i j := isNear p pts i j = true
  core i := i < pts.length ∧ p.minPts ≤ (within p pts i).length
  strong i := i < pts.length ∧ p.minPts + 1 ≤ (within p pts i).length
  near_symm := isNear_symm p pts
  near_self h := isNear_self p pts h.1
  core_of_strong h := ⟨h.1, by omega⟩

/-- The cluster of a point, by its label. -/
def clusterOf (labels : List Label) (i : Nat) : Option Nat :=
  match labels[i]? with
  | some (.cluster id) => some id
  | _ => none

/-! ## What the loops do to the labels

The loops write three kinds of labels. For the graph only the clusters count: noise and unvisited
points have none, and a point that is made noise for a while has none before and after. -/

section Labels

variable {labels : List Label} {q : Nat}

omit [Field K] [LinearOrder K] [IsStrictOrderedRing K] in
/-- A label that is written is the cluster of its point from then on. -/
theorem clusterOf_set_cluster (hq : q < labels.length) (id : Nat) :
    clusterOf (labels.set q (.cluster id)) = Function.update (clusterOf labels) q (some id) := by
  funext i
  by_cases hi : i = q
  · subst hi
    simp [clusterOf, hq]
  · rw [Function.update_of_ne hi, clusterOf, clusterOf, List.getElem?_set_ne (Ne.symm hi)]

theorem clusterOf_set_noise (hq : labels[q]? = some .unvisited) :
    clusterOf (labels.set q .noise) = clusterOf labels := by
  funext i
  by_cases hi : i = q
  · subst hi
    obtain ⟨hlen, hget⟩ := List.getElem?_eq_some_iff.mp hq
    simp [clusterOf, hlen, hget]
  · rw [clusterOf, clusterOf, List.getElem?_set_ne (Ne.symm hi)]

end Labels

/-- The labels of all points, of which the noise is not core. What is noise when the scan gets to
it stays noise or becomes a border point. -/
structure Labelled (labels : List Label) : Prop where
  length : labels.length = pts.length
  noise : ∀ i, labels[i]? = some .noise → ¬(scanGraph p pts).core i

variable {p pts} {labels : List Label} {seeds work : List Nat} {q : Nat}

theorem Labelled.set (h : Labelled p pts labels) (q : Nat) {l : Label}
    (hl : l = .noise → ¬(scanGraph p pts).core q) : Labelled p pts (labels.set q l) := by
  refine ⟨by rw [List.length_set, h.length], fun i hi => ?_⟩
  by_cases hiq : i = q
  · subst hiq
    obtain ⟨hlen, hget⟩ := List.getElem?_eq_some_iff.mp hi
    rw [List.getElem_set_self] at hget
    exact hl hget
  · rw [List.getElem?_set_ne (Ne.symm hiq)] at hi
    exact h.noise i hi

/-- A strong point has `min_pts` neighbours, which is what the expansion asks for. -/
theorem strong_iff (hq : q < pts.length) :
    (scanGraph p pts).strong q ↔ p.minPts ≤ ((regionQuery p pts q).length : Int) := by
  have hlen := length_within p pts hq
  refine ⟨fun h => ?_, fun h => ⟨hq, ?_⟩⟩
  · have := h.2
    omega
  · omega

/-- A core point has as many but one, which is what a cluster is started for. -/
theorem core_iff (hq : q < pts.length) :
    (scanGraph p pts).core q ↔ ¬((regionQuery p pts q).length : Int) + 1 < p.minPts := by
  have hlen := length_within p pts hq
  refine ⟨fun h => ?_, fun h => ⟨hq, ?_⟩⟩
  · have := h.2
    omega
  · omega

theorem clusterOf_eq_some {c : Nat} :
    clusterOf labels q = some c ↔ labels[q]? = some (.cluster c) := by
  rw [clusterOf]
  split
  · next id hid => simp [hid]
  · next hnot => exact iff_of_false (by simp) fun h => hnot c h

theorem clusterOf_eq_none (h : labels[q]? = some .unvisited ∨ labels[q]? = some .noise) :
    clusterOf labels q = none := by
  rcases h with h | h <;> rw [clusterOf, h]

/-- **The expansion** grows the last cluster as far as it grows. By induction on the work list,
one case for each branch: a point that has a cluster already (`Growing.skip`), a noise point,
which was found not to be core and only joins (`Growing.join`), and a new one, which brings its
neighbours if it has enough of them (`Growing.take`). -/
theorem expand_grows (hl : Labelled p pts labels)
    (h : (scanGraph p pts).Growing (clusterOf labels) seeds work) :
    Labelled p pts (expand p pts (seeds.length - 1) labels work) ∧
      (scanGraph p pts).Grown (clusterOf (expand p pts (seeds.length - 1) labels work)) seeds := by
  fun_induction expand p pts (seeds.length - 1) labels work with
  | case1 labels => exact ⟨hl, h.done⟩
  | case2 labels q neighbors claimed hunvisited qNeighbors ih =>
    -- an unvisited point was no noise before
    have hsame : claimed = labels := by
      simp only [claimed, claimNoise] at hunvisited ⊢
      split at hunvisited
      · next hnoise =>
        rw [List.getElem?_set_self (List.getElem?_eq_some_iff.mp hnoise).1] at hunvisited
        cases hunvisited
      · next hnoise => rw [if_neg hnoise]
    rw [hsame] at hunvisited ih ⊢
    obtain ⟨hq, -⟩ := List.getElem?_eq_some_iff.mp hunvisited
    have hqn : q < pts.length := hl.length ▸ hq
    have hnone : clusterOf labels q = none := clusterOf_eq_none (.inl hunvisited)
    refine ih (hl.set q fun hl => by cases hl) ?_
    rw [clusterOf_set_cluster hq]
    split
    · next hmany =>
      have hstrong := (strong_iff hqn).mpr hmany
      exact h.take hnone (fun i hi => ⟨hstrong, ((mem_regionQuery p pts).mp hi).2⟩)
        fun _ i hi => eq_or_mem_regionQuery p pts hi
    · next hfew =>
      exact h.join hnone fun hstrong => hfew ((strong_iff hqn).mp hstrong)
  | case3 labels q neighbors claimed hvisited ih =>
    obtain ⟨s, r, -, -, -, -, hnear⟩ := h.work q List.mem_cons_self
    have hqn : q < pts.length := (lt_of_isNear p pts hnear).2
    have hq : q < labels.length := hl.length ▸ hqn
    by_cases hnoise : labels[q]? = some .noise
    · have hclaim : claimed = labels.set q (.cluster (seeds.length - 1)) := if_pos hnoise
      rw [hclaim] at ih ⊢
      refine ih (hl.set q fun hl => by cases hl) ?_
      rw [clusterOf_set_cluster hq]
      -- noise is not core, so it is not gone on from
      have hweak : ¬(scanGraph p pts).strong q := fun hstrong =>
        hl.noise q hnoise ((scanGraph p pts).core_of_strong hstrong)
      have hnone : clusterOf labels q = none := clusterOf_eq_none (.inr hnoise)
      exact h.join hnone hweak
    · have hclaim : claimed = labels := if_neg hnoise
      rw [hclaim] at hvisited ih ⊢
      refine ih hl (h.skip ?_)
      cases hlabel : labels[q] with
      | unvisited => exact absurd (List.getElem?_eq_some_iff.mpr ⟨hq, hlabel⟩) hvisited
      | noise => exact absurd (List.getElem?_eq_some_iff.mpr ⟨hq, hlabel⟩) hnoise
      | cluster c =>
        rw [clusterOf_eq_some.mpr (List.getElem?_eq_some_iff.mpr ⟨hq, hlabel⟩)]
        exact Option.some_ne_none c

/-- A point that a cluster from an earlier seed has reached is no first point. -/
theorem not_first_of_labelled {i : Nat} (hl : Labelled p pts labels)
    (h : (scanGraph p pts).Grown (clusterOf labels) seeds) (hlt : ∀ s ∈ seeds, s < i)
    (hlabel : labels[i]? ≠ some .unvisited) : ¬(scanGraph p pts).First i := by
  intro hfirst
  have hi : i < labels.length := hl.length ▸ hfirst.1.1
  cases hget : labels[i] with
  | unvisited => exact hlabel (List.getElem?_eq_some_iff.mpr ⟨hi, hget⟩)
  | noise => exact hl.noise i (List.getElem?_eq_some_iff.mpr ⟨hi, hget⟩) hfirst.1
  | cluster c =>
    obtain ⟨s, hs, hclaim⟩ := h.claimed i c
      (clusterOf_eq_some.mpr (List.getElem?_eq_some_iff.mpr ⟨hi, hget⟩))
    have hcore := (h.seed c s hs).1
    have hle : i ≤ s := hfirst.2 s hcore (hclaim.linked hcore hfirst.1).symm
    exact absurd (hlt s (List.mem_of_getElem? hs)) (not_lt.mpr hle)

/-- An unvisited core point starts a cluster. -/
theorem start_grows {i : Nat} (hl : Labelled p pts labels)
    (h : (scanGraph p pts).Grown (clusterOf labels) seeds) (hlt : ∀ s ∈ seeds, s < i)
    (hfirst : ∀ t, (scanGraph p pts).First t → t < i → t ∈ seeds)
    (hunvisited : labels[i]? = some .unvisited) (hcore : (scanGraph p pts).core i) :
    let grown :=
      expand p pts seeds.length (labels.set i (.cluster seeds.length)) (regionQuery p pts i)
    Labelled p pts grown ∧ (scanGraph p pts).Grown (clusterOf grown) (seeds ++ [i]) := by
  obtain ⟨hi, -⟩ := List.getElem?_eq_some_iff.mp hunvisited
  have hgrowing := h.start hcore (clusterOf_eq_none (.inl hunvisited)) hlt hfirst
    (fun j hj => ((mem_regionQuery p pts).mp hj).2)
    fun j hj => eq_or_mem_regionQuery p pts hj
  rw [← clusterOf_set_cluster hi] at hgrowing
  have hgrown := expand_grows (hl.set i fun hl => by cases hl) hgrowing
  rwa [List.length_append, List.length_singleton, Nat.add_sub_cancel] at hgrown

theorem range'_uncons {i j n : Nat} {rest : List Nat} (h : j :: rest = List.range' i (n - i)) :
    j = i ∧ i < n ∧ rest = List.range' (i + 1) (n - (i + 1)) := by
  rcases le_or_gt n i with hle | hgt
  · rw [Nat.sub_eq_zero_of_le hle] at h
    cases h
  · rw [show n - i = n - (i + 1) + 1 by omega, List.range'_succ] at h
    obtain ⟨rfl, rfl⟩ := List.cons.inj h
    exact ⟨rfl, hgt, rfl⟩

/-- **The outer loop** makes clusters that are grown as far as they grow, and passes over no
first point unless there are too many of them. The seeds are in the order of the points, so a
point that is reached by an earlier seed has an earlier core point in its component. -/
theorem dbscan_grows {rest : List Nat} {i clusterId : Nat}
    (hrest : rest = List.range' i (pts.length - i)) (hid : seeds.length = clusterId)
    (hl : Labelled p pts labels) (h : (scanGraph p pts).Grown (clusterOf labels) seeds)
    (hlt : ∀ s ∈ seeds, s < i) (hfirst : ∀ t, (scanGraph p pts).First t → t < i → t ∈ seeds) :
    ∃ seeds', (scanGraph p pts).Grown (clusterOf (dbscan p pts rest labels clusterId).1) seeds' ∧
      ((∀ t, (scanGraph p pts).First t → t ∈ seeds') ∨ p.maxObjects ≤ seeds'.length) := by
  subst hid
  induction rest generalizing i seeds labels with
  | nil =>
    refine ⟨seeds, h, .inl fun t ht => hfirst t ht ?_⟩
    have hempty := congrArg List.length hrest
    have hbound := ht.1.1
    rw [List.length_nil, List.length_range'] at hempty
    omega
  | cons j rest ih =>
    obtain ⟨rfl, hj, hrest'⟩ := range'_uncons hrest
    have hlt' : ∀ s ∈ seeds, s < j + 1 := fun s hs => (hlt s hs).trans (Nat.lt_succ_self j)
    have hfirst' : ¬(scanGraph p pts).First j →
        ∀ t, (scanGraph p pts).First t → t < j + 1 → t ∈ seeds := by
      intro hnot t ht htj
      rcases Nat.lt_succ_iff_lt_or_eq.mp htj with htj | rfl
      · exact hfirst t ht htj
      · exact absurd ht hnot
    simp only [dbscan]
    split_ifs with hlabel hfew hmax
    · -- a cluster has reached the point before the scan does
      exact ih hrest' hl h hlt' (hfirst' (not_first_of_labelled hl h hlt hlabel))
    · have hweak : ¬(scanGraph p pts).core j := fun hcore => (core_iff hj).mp hcore hfew
      rw [← clusterOf_set_noise (not_not.mp hlabel)] at h
      exact ih hrest' (hl.set j fun _ => hweak) h hlt' (hfirst' fun hfirst => hweak hfirst.1)
    · obtain ⟨-, hgrown⟩ :=
        start_grows hl h hlt hfirst (not_not.mp hlabel) ((core_iff hj).mpr hfew)
      refine ⟨_, hgrown, .inr ?_⟩
      rw [List.length_append, List.length_singleton]
      exact_mod_cast hmax
    · obtain ⟨hl', hgrown⟩ :=
        start_grows hl h hlt hfirst (not_not.mp hlabel) ((core_iff hj).mpr hfew)
      have hstarted := ih hrest' hl' hgrown (fun s hs => ?_) fun t ht htj => ?_
      · rwa [List.length_append, List.length_singleton] at hstarted
      · rcases List.mem_append.mp hs with hs | hs
        · exact hlt' s hs
        · exact List.mem_singleton.mp hs ▸ Nat.lt_succ_self j
      · rcases Nat.lt_succ_iff_lt_or_eq.mp htj with htj | rfl
        · exact List.mem_append_left _ (hfirst t ht htj)
        · exact List.mem_append_right _ (List.mem_singleton_self t)

/-! ## The labels of a scan

The loops begin with all points unvisited, which is a clustering of nothing grown as far as it
goes. -/

variable (p pts)

/-- The labels that `detect` makes of the points. -/
def labelsOf : List Label :=
  (dbscan p pts (List.range pts.length) (.replicate pts.length .unvisited) 0).1

theorem labelsOf_grown : ∃ seeds, (scanGraph p pts).Grown (clusterOf (labelsOf p pts)) seeds ∧
    ((∀ t, (scanGraph p pts).First t → t ∈ seeds) ∨ p.maxObjects ≤ seeds.length) := by
  have hnone : clusterOf (.replicate pts.length .unvisited) = fun _ => none := by
    funext i
    by_cases hi : i < pts.length <;> simp [clusterOf, hi]
  have hlabelled : Labelled p pts (.replicate pts.length .unvisited) := by
    refine ⟨List.length_replicate, fun i hi => ?_⟩
    rw [List.getElem?_replicate] at hi
    split at hi <;> cases hi
  have hgrown : (scanGraph p pts).Grown (clusterOf (.replicate pts.length .unvisited)) [] := by
    rw [hnone]
    refine ⟨⟨.nil, ?_, ?_, ?_, ?_⟩, ?_⟩ <;> simp
  exact dbscan_grows (List.range_eq_range' ..) rfl hlabelled hgrown
    (fun s hs => absurd hs List.not_mem_nil) fun t _ ht => absurd ht (Nat.not_lt_zero t)

/-- **The labels are a clustering** exactly if every core point is reached from the first one of
its component through points with `min_pts` others within `eps`, and every border point is within
`eps` of such a point or of a first one.

The loops grow clusters from the first core points through the strong ones (`labelsOf_grown`),
and of anything grown like that the library knows when it is a clustering
(`DensityGraph.Grown.isClustering_iff`). -/
theorem labels_isClustering_iff (hmax : (scanGraph p pts).AtMost p.maxObjects) :
    (scanGraph p pts).IsClustering (clusterOf (labelsOf p pts)) ↔ (scanGraph p pts).Spreads := by
  obtain ⟨seeds, hgrown, hall⟩ := labelsOf_grown p pts
  exact hgrown.isClustering_iff (hall.imp_right fun hle l hcore hpair =>
    (hmax l hcore hpair).trans hle)

/-- There are no more clusters than points. -/
theorem atMost_length {m : Int} (hm : (pts.length : Int) ≤ m) : (scanGraph p pts).AtMost m := by
  intro l hcore hpair
  have hnodup : l.Nodup := hpair.imp fun {a b} hnot (heq : a = b) => hnot (heq ▸ .refl)
  have hsub : l ⊆ List.range pts.length := fun i hi => List.mem_range.mpr (hcore i hi).1
  have hlen := (List.subperm_of_subset hnodup hsub).length_le
  rw [List.length_range] at hlen
  omega

/-! ## Ranges of one, two, three metres at one bearing

Points in a row, a metre apart, as one beam after another sees them. With `eps` of a metre an
inner point has two neighbours and is a core point of three, but not one that the expansion goes
on from; with two metres it is. -/

section Row

variable (eps : Nat) {n i j : Nat}

/-- Three points make a cluster. -/
noncomputable def rowParams (n : Nat) : ClusterParams ℝ := { minPts := 3, eps, numPoints := n }

noncomputable def row (n : Nat) : List (Point2D ℝ) :=
  points (rowParams eps n) (fun i => some (i + 1)) 0 0

theorem row_eq (hn : n ≤ 5) : row eps n = (List.range n).map fun i => ⟨i + 1, 0, i⟩ := by
  rw [row, points, ← List.filterMap_eq_map]
  refine List.filterMap_congr fun i hi => ?_
  have hin : (i : ℝ) + 1 ≤ 5 := by
    have hlt : i + 1 ≤ 5 := Nat.le_trans (List.mem_range.mp hi) hn
    exact_mod_cast hlt
  have hpos : (0 : ℝ) ≤ i := Nat.cast_nonneg i
  refine beamPoint_eq_some_iff.mpr ⟨i + 1, rfl, ⟨?_, ?_⟩, by simp⟩
  · norm_num [rowParams]
    linarith
  · norm_num [rowParams]
    linarith

theorem length_row (hn : n ≤ 5) : (row eps n).length = n := by
  rw [row_eq eps hn, List.length_map, List.length_range]

theorem isNear_row (hn : n ≤ 5) : isNear (rowParams eps n) (row eps n) i j = true ↔
    (i < n ∧ j < n) ∧ i ≤ j + eps ∧ j ≤ i + eps := by
  have hdist : ((i : ℝ) - j) * (i - j) ≤ (eps : ℝ) * eps ↔ i ≤ j + eps ∧ j ≤ i + eps := by
    rw [← abs_le_iff_mul_self_le, Nat.abs_cast, abs_sub_le_iff, sub_le_iff_le_add',
      sub_le_iff_le_add']
    exact_mod_cast Iff.rfl
  by_cases hlt : i < n ∧ j < n
  · simp [isNear, row_eq eps hn, hlt, rowParams, hdist]
  · refine iff_of_false (fun h => hlt ?_) fun h => hlt h.1
    have hlt' := lt_of_isNear _ _ h
    rwa [length_row eps hn] at hlt'

theorem within_row (hn : n ≤ 5) (hi : i < n) : within (rowParams eps n) (row eps n) i =
    (List.range n).filter fun j => decide (i ≤ j + eps ∧ j ≤ i + eps) := by
  rw [within, length_row eps hn]
  refine List.filter_congr fun j hj => Bool.eq_iff_iff.mpr ?_
  rw [isNear_row eps hn, decide_eq_true_iff]
  exact and_iff_right ⟨hi, List.mem_range.mp hj⟩

/-- A point of the row, and whether it has `k` points within `eps`. -/
theorem many_row (hn : n ≤ 5) (k : Int) :
    (i < (row eps n).length ∧ k ≤ (within (rowParams eps n) (row eps n) i).length) ↔
      i < n ∧ k ≤ ((List.range n).filter fun j => decide (i ≤ j + eps ∧ j ≤ i + eps)).length := by
  rw [length_row eps hn]
  exact and_congr_right fun hi => by rw [within_row eps hn hi]

/-- Of five points a metre apart the inner three are core points. -/
theorem core_chain : (scanGraph (rowParams 1 5) (row 1 5)).core i ↔ 1 ≤ i ∧ i ≤ 3 := by
  refine (many_row 1 le_rfl 3).trans ?_
  rcases lt_or_ge i 5 with hi | hi
  · revert i
    decide
  · exact iff_of_false (fun h => by omega) fun h => by omega

theorem not_strong_chain : ¬(scanGraph (rowParams 1 5) (row 1 5)).strong i := by
  refine (many_row 1 le_rfl (3 + 1)).not.mpr ?_
  rintro ⟨hi, h⟩
  revert i
  decide

/-- The first of the three starts a cluster that does not reach the third, for the second has
just two neighbours. -/
theorem not_spreads_chain : ¬(scanGraph (rowParams 1 5) (row 1 5)).Spreads := by
  intro hspreads
  have hcore : ∀ {i}, 1 ≤ i → i ≤ 3 → (scanGraph (rowParams 1 5) (row 1 5)).core i :=
    fun h h' => core_chain.mpr ⟨h, h'⟩
  have hnear : ∀ {i}, i + 1 < 5 → (scanGraph (rowParams 1 5) (row 1 5)).near i (i + 1) :=
    fun h => (isNear_row 1 le_rfl).mpr ⟨⟨by omega, h⟩, by omega, le_rfl⟩
  have hfirst : (scanGraph (rowParams 1 5) (row 1 5)).First 1 :=
    ⟨hcore le_rfl (by omega), fun t ht _ => (core_chain.mp ht).1⟩
  have hlinked : (scanGraph (rowParams 1 5) (row 1 5)).Linked 1 3 :=
    .tail (.single ⟨hcore (by omega) (by omega), hcore (by omega) (by omega), hnear (by omega)⟩)
      ⟨hcore (by omega) (by omega), hcore (by omega) (by omega), hnear (by omega)⟩
  have hclaimed := hspreads.cores 1 3 hfirst (hcore (by omega) (by omega)) hlinked
  cases hclaimed with
  | step _ hgo hnear =>
    rcases hgo with rfl | hstrong
    · have hle := ((isNear_row 1 le_rfl).mp hnear).2.2
      omega
    · exact not_strong_chain hstrong

/-- Five ranges a metre apart at one bearing: the core points are in two clusters. -/
theorem not_labels_isClustering :
    ¬∀ (p : ClusterParams ℝ) (ranges : Nat → Option ℝ) (angleMin angleIncrement : ℝ),
      let pts := points p ranges angleMin angleIncrement
      (scanGraph p pts).AtMost p.maxObjects →
        (scanGraph p pts).IsClustering (clusterOf (labelsOf p pts)) := by
  intro h
  obtain ⟨seeds, hgrown, -⟩ := labelsOf_grown (rowParams 1 5) (row 1 5)
  have hmax : (scanGraph (rowParams 1 5) (row 1 5)).AtMost (rowParams 1 5).maxObjects := by
    refine atMost_length _ _ ?_
    rw [length_row 1 le_rfl]
    norm_num [rowParams]
  exact not_spreads_chain (hgrown.spreads (h (rowParams 1 5) _ 0 0 hmax))

/-- Three points that are all within `eps` of each other are one cluster. -/
theorem labels_isClustering_triple :
    (scanGraph (rowParams 2 3) (row 2 3)).IsClustering
      (clusterOf (labelsOf (rowParams 2 3) (row 2 3))) := by
  have hnear : ∀ {i j}, i < 3 → j < 3 → (scanGraph (rowParams 2 3) (row 2 3)).near i j :=
    fun hi hj => (isNear_row 2 (by omega)).mpr ⟨⟨hi, hj⟩, by omega, by omega⟩
  have hcore : ∀ {i}, (scanGraph (rowParams 2 3) (row 2 3)).core i ↔ i < 3 := by
    intro i
    refine (many_row 2 (by omega) 3).trans ⟨And.left, fun hi => ⟨hi, ?_⟩⟩
    revert i
    decide
  have hmax : (scanGraph (rowParams 2 3) (row 2 3)).AtMost (rowParams 2 3).maxObjects := by
    refine atMost_length _ _ ?_
    rw [length_row 2 (by omega)]
    norm_num [rowParams]
  refine (labels_isClustering_iff _ _ hmax).mpr ⟨fun s t hs ht _ => ?_, fun i hi ⟨j, hj, hji⟩ => ?_⟩
  · exact .step .seed (.inl rfl) (hnear (hcore.mp hs.1) (hcore.mp ht))
  · exact absurd (hcore.mpr ((isNear_row 2 (by omega)).mp hji).1.2) hi

end Row

end AmrFramework.Perception
