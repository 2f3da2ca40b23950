import Mathlib.Data.List.GetD
import Mathlib.Logic.Relation
import Mathlib.Order.WellFounded

/-!
# Density-based clusters

Some points of a symmetric graph are core points. A clustering keeps the connected
core points together, and gives every other point that is near one of them to the
cluster of such a core point (`IsClustering`).

A scan over the points that grows a cluster from every core point it has not
reached yet (`Grown`) need not go on from all of them: let it go on from the
*strong* core points only. What it makes is a clustering exactly if that is enough
(`Spreads`): every component is reached from its first core point, and every
border point is near a core point that is gone on from.

The seeds are in the order of the points, and the scan meets them in it. This is why only the
first core point of a component matters: every later one is either reached from it, or would
start a second cluster in the same component.
-/

universe u

/-- A symmetric relation, with the points that clusters are made of and those that a
cluster is grown through. -/
structure DensityGraph (V : Type u) : Type u where
  near : V → V → Prop
  core : V → Prop
  strong : V → Prop
  near_symm : ∀ {a b}, near a b → near b a
  near_self : ∀ {a}, core a → near a a
  core_of_strong : ∀ {a}, strong a → core a

variable {V : Type u} (G : DensityGraph V)

namespace DensityGraph

/-- A chain of core points. -/
def Linked : V → V → Prop := Relation.ReflTransGen fun a b => G.core a ∧ G.core b ∧ G.near a b

/-- What a cluster grown from `s` can reach: `s` itself, its neighbours, and those of every
strong point reached. A point that is reached and not strong ends there. -/
inductive Claimed (s : V) : V → Prop
  | seed : Claimed s s
  | step {q r : V} : Claimed s q → q = s ∨ G.strong q → G.near q r → Claimed s r

/-- A clustering by density: core points share a cluster exactly when they are linked by core
points, a border point is near a core point of its cluster, and noise is near no core point. -/
structure IsClustering (label : V → Option Nat) : Prop where
  core_iff : ∀ i j, G.core i → G.core j →
    ((∃ c, label i = some c ∧ label j = some c) ↔ G.Linked i j)
  border : ∀ i c, ¬G.core i → label i = some c → ∃ j, G.core j ∧ label j = some c ∧ G.near j i
  noise : ∀ i, label i = none ↔ ∀ j, G.core j → ¬G.near j i

/-- No more than `m` core points are pairwise not linked. -/
def AtMost (m : Int) : Prop :=
  ∀ l : List V, (∀ i ∈ l, G.core i) → l.Pairwise (fun i j => ¬G.Linked i j) → (l.length : Int) ≤ m

section Order

variable [LinearOrder V]

/-- The first core point of its component. -/
def First (s : V) : Prop := G.core s ∧ ∀ t, G.core t → G.Linked s t → s ≤ t

/-- Growing through strong points from the first points reaches all that is to be
reached. -/
structure Spreads : Prop where
  cores : ∀ s t, G.First s → G.core t → G.Linked s t → G.Claimed s t
  borders : ∀ i, ¬G.core i → (∃ j, G.core j ∧ G.near j i) →
    ∃ j, (G.First j ∨ G.strong j) ∧ G.near j i

/-- Clusters around seeds, in the order of the points. The first point in each group of core
points becomes its seed, and everything in the cluster was reached from there. -/
structure Seeded (label : V → Option Nat) (seeds : List V) : Prop where
  order : seeds.Pairwise fun s t => s < t ∧ ¬G.Claimed s t
  seed : ∀ c s, seeds[c]? = some s → G.core s ∧ label s = some c
  /-- no first point is passed over -/
  first : ∀ s ∈ seeds, ∀ t, G.First t → t ≤ s → t ∈ seeds
  claimed : ∀ i c, label i = some c → ∃ s, seeds[c]? = some s ∧ G.Claimed s i
  border : ∀ i c, label i = some c → ¬G.core i → ∃ q, G.core q ∧ label q = some c ∧ G.near q i ∧
    (q ∈ seeds ∨ G.strong q)

/-- Clusters that are grown as far as they grow: no point from which a cluster expands has a
neighbour without a label. -/
structure Grown (label : V → Option Nat) (seeds : List V) : Prop extends G.Seeded label seeds where
  closed : ∀ q c, label q = some c → (q ∈ seeds ∨ G.strong q) → ∀ i, G.near q i → label i ≠ none

/-- The last cluster still grows: the points of `work` are to be looked at. All earlier clusters
are grown, and what is missing from the last one is near a point of `work` or is in it. -/
structure Growing (label : V → Option Nat) (seeds work : List V) : Prop
    extends G.Seeded label seeds where
  closed : ∀ q c, label q = some c → (q ∈ seeds ∨ G.strong q) →
    ∀ i, G.near q i → label i ≠ none ∨ i ∈ work
  work : ∀ i ∈ work, ∃ s q, seeds.getLast? = some s ∧ G.Claimed s q ∧ (q = s ∨ G.strong q) ∧
    label q = some (seeds.length - 1) ∧ G.near q i

end Order

variable {G} {i j s t : V}

/-- Chains of core points can be walked backwards. -/
theorem Linked.symm (h : G.Linked i j) : G.Linked j i := by
  induction h with
  | refl => exact .refl
  | tail _ hstep ih => exact ih.head ⟨hstep.2.1, hstep.1, G.near_symm hstep.2.2⟩

/-- What a cluster can reach of core points is in the component of its seed. -/
theorem Claimed.linked (hs : G.core s) (hi : G.core i) (h : G.Claimed s i) : G.Linked s i := by
  induction h with
  | seed => exact .refl
  | step _ hgo hnear ih =>
    have hq : G.core _ := hgo.elim (fun heq => heq ▸ hs) G.core_of_strong
    exact (ih hq).tail ⟨hq, hi, hnear⟩

variable [LinearOrder V]

/-- Every core point has a first one in its component. -/
theorem exists_first [WellFoundedLT V] (hi : G.core i) : ∃ s, G.First s ∧ G.Linked s i := by
  obtain ⟨s, ⟨hs, hlink⟩, hmin⟩ := WellFounded.has_min (wellFounded_lt (α := V))
    { s | G.core s ∧ G.Linked s i } ⟨i, hi, .refl⟩
  refine ⟨s, ⟨hs, fun t ht hst => not_lt.mp (hmin t ⟨ht, hst.symm.trans hlink⟩)⟩, hlink⟩

/-- A component has one first point. -/
theorem First.unique (hs : G.First s) (ht : G.First t) (h : G.Linked s t) : s = t :=
  le_antisymm (hs.2 t ht.1 h) (ht.2 s hs.1 h.symm)

/-! ## What growing makes

What is known of the seeds and the labels once nothing grows any more. -/

variable {label : V → Option Nat} {seeds : List V} {c c' : Nat}

theorem Seeded.exists_index (h : G.Seeded label seeds) (hs : s ∈ seeds) :
    ∃ c, seeds[c]? = some s ∧ G.core s ∧ label s = some c := by
  obtain ⟨c, hc⟩ := List.mem_iff_getElem?.mp hs
  exact ⟨c, hc, h.seed c s hc⟩

/-- Of two seeds the earlier does not claim the later. -/
theorem Grown.not_claimed (h : G.Grown label seeds) (hs : s ∈ seeds) (ht : t ∈ seeds)
    (hlt : s < t) : ¬G.Claimed s t := by
  obtain ⟨a, ha, rfl⟩ := List.mem_iff_getElem.mp hs
  obtain ⟨b, hb, rfl⟩ := List.mem_iff_getElem.mp ht
  have horder := List.pairwise_iff_getElem.mp h.order
  rcases lt_trichotomy a b with hab | rfl | hba
  · exact (horder a b ha hb hab).2
  · exact absurd hlt (lt_irrefl _)
  · exact absurd hlt (horder b a hb ha hba).1.asymm

/-- What a seed can reach has been reached. -/
theorem Grown.label_of_claimed (h : G.Grown label seeds) (hs : s ∈ seeds) (hi : G.Claimed s i) :
    label i ≠ none := by
  induction hi with
  | seed =>
    obtain ⟨c, -, -, hlabel⟩ := h.exists_index hs
    simp [hlabel]
  | @step q r _ hgo hnear ih =>
    obtain ⟨c, hc⟩ := Option.ne_none_iff_exists'.mp ih
    rcases hgo with rfl | hstrong
    · exact h.closed q c hc (.inl hs) r hnear
    · exact h.closed q c hc (.inr hstrong) r hnear

/-! ## Growing

The moves of a scan, as they appear in a loop with a work list: it may pass over a point that has
a cluster, give the last cluster to one that has none and go on from it or not, run out of work,
and start anew at a core point. Each keeps what is claimed of the labels and the seeds. -/

variable {work next : List V} {w : V}

/-- Without work the last cluster is grown, too. -/
theorem Growing.done (h : G.Growing label seeds []) : G.Grown label seeds :=
  ⟨h.toSeeded, fun q c hq hgo i hi => (h.closed q c hq hgo i hi).resolve_right List.not_mem_nil⟩

/-- A point that has a cluster already. -/
theorem Growing.skip (h : G.Growing label seeds (w :: work)) (hw : label w ≠ none) :
    G.Growing label seeds work := by
  refine ⟨h.toSeeded, fun q c hq hgo i hi => ?_, fun i hi => h.work i (List.mem_cons_of_mem w hi)⟩
  rcases h.closed q c hq hgo i hi with hlabel | hmem
  · exact .inl hlabel
  · rcases List.mem_cons.mp hmem with rfl | hmem
    · exact .inl hw
    · exact .inr hmem

/-- A point that has no cluster gets the last one, and if it is strong it is gone on from. -/
theorem Growing.take (h : G.Growing label seeds (w :: work)) (hw : label w = none)
    (hnear : ∀ i ∈ next, G.strong w ∧ G.near w i)
    (hnext : G.strong w → ∀ i, G.near w i → i = w ∨ i ∈ next) :
    G.Growing (Function.update label w (some (seeds.length - 1))) seeds (work ++ next) := by
  obtain ⟨s, q, hlast, hclaim, hgo, hq, hqw⟩ := h.work w List.mem_cons_self
  have hne : ∀ {i c}, label i = some c → i ≠ w := by
    rintro i c hi rfl
    rw [hw] at hi
    cases hi
  have hold : ∀ {i c}, label i = some c →
      Function.update label w (some (seeds.length - 1)) i = some c := by
    intro i c hi
    rw [Function.update_of_ne (hne hi), hi]
  have hs : seeds[seeds.length - 1]? = some s := by
    rw [← List.getLast?_eq_getElem?]
    exact hlast
  have hsw : G.Claimed s w := hclaim.step hgo hqw
  refine ⟨⟨h.order, fun c t ht => ⟨(h.seed c t ht).1, hold (h.seed c t ht).2⟩, h.first, ?_, ?_⟩,
    ?_, ?_⟩
  · intro i c hi
    by_cases hiw : i = w
    · subst hiw
      rw [Function.update_self] at hi
      exact ⟨s, Option.some.inj hi ▸ hs, hsw⟩
    · rw [Function.update_of_ne hiw] at hi
      exact h.claimed i c hi
  · intro i c hi hcore
    by_cases hiw : i = w
    · subst hiw
      rw [Function.update_self] at hi
      obtain rfl := Option.some.inj hi
      rcases hgo with rfl | hstrong
      · exact ⟨q, (h.seed _ q hs).1, hold hq, hqw, .inl (List.mem_of_getElem? hs)⟩
      · exact ⟨q, G.core_of_strong hstrong, hold hq, hqw, .inr hstrong⟩
    · rw [Function.update_of_ne hiw] at hi
      obtain ⟨r, hr, hrc, hri, hrgo⟩ := h.border i c hi hcore
      exact ⟨r, hr, hold hrc, hri, hrgo⟩
  · intro r c hr hrgo i hi
    by_cases hiw : i = w
    · exact .inl (by simp [hiw])
    · by_cases hrw : r = w
      · subst hrw
        have hstrong : G.strong r := hrgo.resolve_left fun hmem => by
          obtain ⟨c, -, -, hlabel⟩ := h.toSeeded.exists_index hmem
          exact hne hlabel rfl
        have hmem := (hnext hstrong i hi).resolve_left hiw
        exact .inr (List.mem_append_right work hmem)
      · rw [Function.update_of_ne hrw] at hr
        rcases h.closed r c hr hrgo i hi with hlabel | hmem
        · exact .inl (by rw [Function.update_of_ne hiw]; exact hlabel)
        · exact .inr (List.mem_append_left next ((List.mem_cons.mp hmem).resolve_left hiw))
  · intro i hi
    rcases List.mem_append.mp hi with hi | hi
    · obtain ⟨t, r, ht, hclaim, hgo, hr, hri⟩ := h.work i (List.mem_cons_of_mem w hi)
      exact ⟨t, r, ht, hclaim, hgo, hold hr, hri⟩
    · obtain ⟨hstrong, hwi⟩ := hnear i hi
      exact ⟨s, w, hlast, hsw, .inr hstrong, Function.update_self .., hwi⟩

/-- A point that is not strong gets the last cluster, and that is all. -/
theorem Growing.join (h : G.Growing label seeds (w :: work)) (hw : label w = none)
    (hweak : ¬G.strong w) :
    G.Growing (Function.update label w (some (seeds.length - 1))) seeds work := by
  have htake : G.Growing _ seeds (work ++ []) :=
    h.take hw (fun i hi => absurd hi List.not_mem_nil) fun hstrong => absurd hstrong hweak
  rwa [List.append_nil] at htake

/-- A core point that no cluster has reached starts one. -/
theorem Grown.start (h : G.Grown label seeds) (hs : G.core s) (hnone : label s = none)
    (hlt : ∀ t ∈ seeds, t < s) (hfirst : ∀ t, G.First t → t < s → t ∈ seeds)
    (hnear : ∀ i ∈ next, G.near s i) (hnext : ∀ i, G.near s i → i = s ∨ i ∈ next) :
    G.Growing (Function.update label s (some seeds.length)) (seeds ++ [s]) next := by
  have hold : ∀ {i c}, label i = some c →
      Function.update label s (some seeds.length) i = some c := by
    intro i c hi
    have his : i ≠ s := by
      rintro rfl
      rw [hnone] at hi
      cases hi
    rw [Function.update_of_ne his, hi]
  have hindex : ∀ {c : Nat} {t}, seeds[c]? = some t → (seeds ++ [s])[c]? = some t := by
    intro c t ht
    rw [List.getElem?_append_left (List.getElem?_eq_some_iff.mp ht).1, ht]
  refine ⟨⟨?_, ?_, ?_, ?_, ?_⟩, ?_, ?_⟩
  · refine List.pairwise_append.mpr ⟨h.order, List.pairwise_singleton _ _, fun t ht r hr => ?_⟩
    obtain rfl := List.mem_singleton.mp hr
    exact ⟨hlt t ht, fun hclaim => h.label_of_claimed ht hclaim hnone⟩
  · intro c t ht
    rcases Nat.lt_or_ge c seeds.length with hc | hc
    · rw [List.getElem?_append_left hc] at ht
      exact ⟨(h.seed c t ht).1, hold (h.seed c t ht).2⟩
    · rw [List.getElem?_append_right hc] at ht
      obtain ⟨hlen, rfl⟩ := List.getElem?_eq_some_iff.mp ht
      obtain rfl : c = seeds.length := by
        rw [List.length_singleton] at hlen
        omega
      simpa using hs
  · intro r hr t ht htr
    rcases List.mem_append.mp hr with hr | hr
    · exact List.mem_append_left _ (h.first r hr t ht htr)
    · obtain rfl := List.mem_singleton.mp hr
      rcases htr.lt_or_eq with htr | rfl
      · exact List.mem_append_left _ (hfirst t ht htr)
      · exact List.mem_append_right _ (List.mem_singleton_self t)
  · intro i c hi
    by_cases his : i = s
    · subst his
      rw [Function.update_self] at hi
      obtain rfl := Option.some.inj hi
      exact ⟨i, List.getElem?_concat_length, .seed⟩
    · rw [Function.update_of_ne his] at hi
      obtain ⟨t, ht, hclaim⟩ := h.claimed i c hi
      exact ⟨t, hindex ht, hclaim⟩
  · intro i c hi hcore
    have his : i ≠ s := fun heq => hcore (heq ▸ hs)
    rw [Function.update_of_ne his] at hi
    obtain ⟨q, hq, hqc, hqi, hgo⟩ := h.border i c hi hcore
    exact ⟨q, hq, hold hqc, hqi, hgo.imp_left (List.mem_append_left _)⟩
  · intro q c hq hgo i hi
    by_cases his : i = s
    · exact .inl (by simp [his])
    · by_cases hqs : q = s
      · exact .inr ((hnext i (hqs ▸ hi)).resolve_left his)
      · rw [Function.update_of_ne hqs] at hq
        have hgo' : q ∈ seeds ∨ G.strong q := hgo.imp_left fun hmem =>
          (List.mem_append.mp hmem).resolve_right (by simpa using hqs)
        exact .inl (by rw [Function.update_of_ne his]; exact h.closed q c hq hgo' i hi)
  · intro i hi
    refine ⟨s, s, List.getLast?_concat, .seed, .inl rfl, ?_, hnear i hi⟩
    simp

variable [WellFoundedLT V]

/-- A clustering shows that growing reached everything. -/
theorem Grown.spreads (h : G.Grown label seeds) (hc : G.IsClustering label) : G.Spreads := by
  refine ⟨fun s t hs ht hlink => ?_, fun i hi ⟨j, hj, hji⟩ => ?_⟩
  · obtain ⟨c, hsc, htc⟩ := (hc.core_iff s t hs.1 ht).mpr hlink
    obtain ⟨r, hr, hrs⟩ := h.claimed s c hsc
    obtain ⟨r', hr', hrt⟩ := h.claimed t c htc
    obtain rfl : r = r' := Option.some.inj (hr.symm.trans hr')
    -- the seed of the cluster comes no earlier than the first point, and no later
    have hlinked : G.Linked r s := hrs.linked (h.seed c r hr).1 hs.1
    have hle : s ≤ r := hs.2 r (h.seed c r hr).1 hlinked.symm
    obtain ⟨c', hc', -, hlabel⟩ := h.exists_index (h.first r (List.mem_of_getElem? hr) s hs hle)
    obtain rfl : c' = c := Option.some.inj (hlabel.symm.trans hsc)
    obtain rfl : r = s := Option.some.inj (hr.symm.trans hc')
    exact hrt
  · have hlabel : label i ≠ none := fun hnone => (hc.noise i).mp hnone j hj hji
    obtain ⟨c, hc'⟩ := Option.ne_none_iff_exists'.mp hlabel
    obtain ⟨q, hq, hqc, hqi, hseed | hstrong⟩ := h.border i c hc' hi
    · refine ⟨q, .inl ?_, hqi⟩
      obtain ⟨s, hs, hlink⟩ := exists_first hq
      obtain ⟨a, ha, -, hsa⟩ := h.exists_index (h.first q hseed s hs (hs.2 q hq hlink))
      obtain ⟨b, hb, -, hqb⟩ := h.exists_index hseed
      obtain ⟨d, hsd, hqd⟩ := (hc.core_iff s q hs.1 hq).mpr hlink
      obtain rfl : a = b := by
        rw [hsa] at hsd
        rw [hqb] at hqd
        exact (Option.some.inj hsd).trans (Option.some.inj hqd).symm
      obtain rfl : s = q := Option.some.inj (ha.symm.trans hb)
      exact hs
    · exact ⟨q, .inr hstrong, hqi⟩

/-- The seeds are the first points of their components. -/
theorem Grown.first_of_seed (h : G.Grown label seeds) (hspread : G.Spreads) (hs : s ∈ seeds) :
    G.First s := by
  obtain ⟨c, -, hcore, -⟩ := h.exists_index hs
  obtain ⟨t, ht, hlink⟩ := exists_first hcore
  have hle : t ≤ s := ht.2 s hcore hlink
  rcases hle.lt_or_eq with hlt | rfl
  · exact absurd (hspread.cores t s ht hcore hlink)
      (h.not_claimed (h.first s hs t ht hle) hs hlt)
  · exact ht

/-- All first points are seeds, unless growing was stopped too early. -/
theorem Grown.seed_of_first (h : G.Grown label seeds) (hspread : G.Spreads)
    (hall : (∀ t, G.First t → t ∈ seeds) ∨ G.AtMost seeds.length) (ht : G.First t) :
    t ∈ seeds := by
  rcases hall with hall | hall
  · exact hall t ht
  · by_contra hnot
    have hcore : ∀ i ∈ t :: seeds, G.core i := List.forall_mem_cons.mpr
      ⟨ht.1, fun s hs => (h.first_of_seed hspread hs).1⟩
    have hpair : (t :: seeds).Pairwise fun i j => ¬G.Linked i j := by
      refine List.pairwise_cons.mpr ⟨fun s hs hlink => ?_, ?_⟩
      · exact hnot (ht.unique (h.first_of_seed hspread hs) hlink ▸ hs)
      · refine h.order.imp_of_mem fun ha hb hlt hlink => ?_
        exact hlt.1.ne ((h.first_of_seed hspread ha).unique (h.first_of_seed hspread hb) hlink)
    have hlen := hall _ hcore hpair
    rw [List.length_cons] at hlen
    omega

/-- Where growing reaches everything, a core point is in the cluster of its first point. -/
theorem Grown.label_core (h : G.Grown label seeds) (hspread : G.Spreads)
    (hall : (∀ t, G.First t → t ∈ seeds) ∨ G.AtMost seeds.length) (hi : G.core i) :
    ∃ c s, label i = some c ∧ seeds[c]? = some s ∧ G.First s ∧ G.Linked s i := by
  obtain ⟨s, hs, hlink⟩ := exists_first hi
  have hseed := h.seed_of_first hspread hall hs
  obtain ⟨c, hc⟩ := Option.ne_none_iff_exists'.mp
    (h.label_of_claimed hseed (hspread.cores s i hs hi hlink))
  obtain ⟨r, hr, hri⟩ := h.claimed i c hc
  have hrmem := List.mem_of_getElem? hr
  exact ⟨c, r, hc, hr, h.first_of_seed hspread hrmem, hri.linked (h.seed c r hr).1 hi⟩

/-- Where growing reaches everything, it makes a clustering. -/
theorem Grown.isClustering (h : G.Grown label seeds) (hspread : G.Spreads)
    (hall : (∀ t, G.First t → t ∈ seeds) ∨ G.AtMost seeds.length) : G.IsClustering label := by
  refine ⟨fun i j hi hj => ?_, fun i c hi hc => ?_, fun i => ?_⟩
  · obtain ⟨a, s, ha, hs, hsf, hsi⟩ := h.label_core hspread hall hi
    obtain ⟨b, t, hb, ht, htf, htj⟩ := h.label_core hspread hall hj
    constructor
    · rintro ⟨c, hci, hcj⟩
      obtain rfl : a = c := Option.some.inj (ha.symm.trans hci)
      obtain rfl : b = a := Option.some.inj (hb.symm.trans hcj)
      obtain rfl : s = t := Option.some.inj (hs.symm.trans ht)
      exact hsi.symm.trans htj
    · intro hlink
      obtain rfl : s = t := hsf.unique htf (hsi.trans (hlink.trans htj.symm))
      obtain rfl : a = b := Option.some.inj ((h.seed a s hs).2.symm.trans (h.seed b s ht).2)
      exact ⟨a, ha, hb⟩
  · obtain ⟨q, hq, hqc, hqi, -⟩ := h.border i c hc hi
    exact ⟨q, hq, hqc, hqi⟩
  · constructor
    · intro hnone j hj hji
      by_cases hi : G.core i
      · obtain ⟨c, -, hc, -⟩ := h.label_core hspread hall hi
        rw [hnone] at hc
        cases hc
      · obtain ⟨q, hgo, hqi⟩ := hspread.borders i hi ⟨j, hj, hji⟩
        have hq : G.core q := hgo.elim And.left G.core_of_strong
        obtain ⟨c, -, hc, -⟩ := h.label_core hspread hall hq
        exact h.closed q c hc (hgo.imp_left (h.seed_of_first hspread hall)) i hqi hnone
    · intro hfar
      by_contra hlabel
      obtain ⟨c, hc⟩ := Option.ne_none_iff_exists'.mp hlabel
      by_cases hi : G.core i
      · exact hfar i hi (G.near_self hi)
      · obtain ⟨q, hq, -, hqi, -⟩ := h.border i c hc hi
        exact hfar q hq hqi

/-- **What was grown is a clustering** exactly if growing reaches everything. If it is one, a
core point of a component cannot have been left to a later seed, so it was claimed from the first
(`Grown.spreads`); if growing reaches everything, the label of a core point is that of the first
point of its component (`Grown.label_core`), and nothing else is asked of a clustering. -/
theorem Grown.isClustering_iff (h : G.Grown label seeds)
    (hall : (∀ t, G.First t → t ∈ seeds) ∨ G.AtMost seeds.length) :
    G.IsClustering label ↔ G.Spreads :=
  ⟨h.spreads, fun hspread => h.isClustering hspread hall⟩

end DensityGraph
